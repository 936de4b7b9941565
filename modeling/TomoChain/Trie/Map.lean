import Mathlib
import TomoChain.Trie.Trie

set_option autoImplicit false

/-! The map a trie node stands for, and the shape `insert` and `delete` keep. A node
holds a value under a key relative to it (`Node.lookup`); every key a trie holds is a
hex key, so that no key is a proper prefix of another (`Terminated`, `Valid`). `WF` is
the minimal shape of an in-memory trie: short nodes have a key and a child that is
neither empty nor short, and full nodes have at least two children. -/
namespace TomoChain.Mpt

/-- The value a node holds under a key relative to it: a value node under the empty
key, a short node under its key followed by a key of its child, a full node under the
index of a child followed by a key of that child. A node that is not loaded holds
nothing in memory. -/
def Node.lookup : Node → List Nibble → Option (List UInt8)
  | .empty, _ => none
  | .value v, [] => some v
  | .value _, _ :: _ => none
  | .short nkey nval _, key => if nkey <+: key then nval.lookup (key.drop nkey.length) else none
  | .full _ _, [] => none
  | .full children _, i :: rest => (children i).lookup rest
  | .hash _, _ => none

/-- A short node. -/
def Node.isShort : Node → Bool
  | .short .. => true
  | _ => false

/-- A key that ends in the terminator and holds it nowhere else, as every hex key does. -/
def Terminated (key : List Nibble) : Prop := ∃ body, 16 ∉ body ∧ key = body ++ [16]

/-- Every key `n` holds is terminated behind `pref`, the path from the root to `n`. -/
def Valid (pref : List Nibble) (n : Node) : Prop :=
  ∀ key v, n.lookup key = some v → Terminated (pref ++ key)

/-- Two different children are present. -/
def TwoChildren (children : Fin 17 → Node) : Prop :=
  ∃ a b : Fin 17, a ≠ b ∧ (children a).isPresent ∧ (children b).isPresent

instance (children : Fin 17 → Node) : Decidable (TwoChildren children) :=
  inferInstanceAs (Decidable (∃ a b : Fin 17, a ≠ b ∧ (children a).isPresent ∧ (children b).isPresent))

/-- The minimal shape of a trie in memory. -/
def Node.WF : Node → Prop
  | .empty => True
  | .value _ => True
  | .short nkey nval _ => nkey ≠ [] ∧ nval.isPresent ∧ nval.isShort = false ∧ nval.WF
  | .full children _ => TwoChildren children ∧ ∀ i, (children i).WF
  | .hash _ => False

/-- `WF` is decided node by node. -/
def Node.decWF : (n : Node) → Decidable n.WF
  | .empty => isTrue trivial
  | .value _ => isTrue trivial
  | .short nkey nval _ =>
    have := nval.decWF
    inferInstanceAs (Decidable (nkey ≠ [] ∧ nval.isPresent ∧ nval.isShort = false ∧ nval.WF))
  | .full children _ =>
    have := fun i => (children i).decWF
    inferInstanceAs (Decidable (TwoChildren children ∧ ∀ i, (children i).WF))
  | .hash _ => isFalse id

instance (n : Node) : Decidable n.WF := n.decWF

/-- What `insert` builds under an empty node: the node itself for the empty key, a
short node before it otherwise. -/
def leaf (flags : NodeFlag) (rest : List Nibble) (x : Node) : Node :=
  if rest.length = 0 then x else .short rest x flags

/-- `n'` holds `o` under `key` and what `n` holds under every other key. -/
def Updates (n n' : Node) (key : List Nibble) (o : Option (List UInt8)) : Prop :=
  ∀ k, n'.lookup k = if k = key then o else n.lookup k

/-! ## Lookup -/

@[simp] theorem lookup_empty (key : List Nibble) : Node.empty.lookup key = none := by
  cases key <;> rfl

@[simp] theorem lookup_hash (h : List UInt8) (key : List Nibble) : (Node.hash h).lookup key = none := by
  cases key <;> rfl

theorem lookup_value (v : List UInt8) (key : List Nibble) :
    (Node.value v).lookup key = if key = [] then some v else none := by
  cases key <;> rfl

@[simp] theorem lookup_full_nil (children : Fin 17 → Node) (flags : NodeFlag) :
    (Node.full children flags).lookup [] = none := rfl

@[simp] theorem lookup_full_cons (children : Fin 17 → Node) (flags : NodeFlag) (i : Nibble)
    (rest : List Nibble) : (Node.full children flags).lookup (i :: rest) = (children i).lookup rest := rfl

theorem lookup_short (nkey : List Nibble) (nval : Node) (flags : NodeFlag) (key : List Nibble) :
    (Node.short nkey nval flags).lookup key =
      if nkey <+: key then nval.lookup (key.drop nkey.length) else none := by
  cases key <;> rfl

@[simp] theorem lookup_short_append (nkey : List Nibble) (nval : Node) (flags : NodeFlag)
    (rest : List Nibble) : (Node.short nkey nval flags).lookup (nkey ++ rest) = nval.lookup rest := by
  rw [lookup_short, if_pos (List.prefix_append nkey rest), List.drop_left]

theorem lookup_short_outside {nkey : List Nibble} (nval : Node) (flags : NodeFlag)
    {key : List Nibble} (off : ¬ nkey <+: key) : (Node.short nkey nval flags).lookup key = none := by
  rw [lookup_short, if_neg off]

/-- A short node holds exactly the keys of its child behind its own key. -/
theorem lookup_short_eq_some {nkey : List Nibble} {nval : Node} {flags : NodeFlag}
    {key : List Nibble} {v : List UInt8} (found : (Node.short nkey nval flags).lookup key = some v) :
    ∃ rest, key = nkey ++ rest ∧ nval.lookup rest = some v := by
  by_cases on : nkey <+: key
  · obtain ⟨rest, rfl⟩ := on
    exact ⟨rest, rfl, by rwa [lookup_short_append] at found⟩
  · rw [lookup_short_outside nval flags on] at found
    cases found

/-- The flags of a node do not change what it holds. -/
theorem lookup_short_flags (nkey : List Nibble) (nval : Node) (flags flags' : NodeFlag) :
    (Node.short nkey nval flags).lookup = (Node.short nkey nval flags').lookup := by
  funext key
  rw [lookup_short, lookup_short]

@[simp] theorem lookup_short_nil (nval : Node) (flags : NodeFlag) (key : List Nibble) :
    (Node.short [] nval flags).lookup key = nval.lookup key := by
  simpa using lookup_short_append [] nval flags key

/-- A short node under a short node holds what the short node of both keys holds. -/
theorem lookup_short_short (nkey ckey : List Nibble) (cval : Node) (flags flags' flags'' : NodeFlag)
    (key : List Nibble) :
    (Node.short nkey (.short ckey cval flags) flags').lookup key =
      (Node.short (nkey ++ ckey) cval flags'').lookup key := by
  by_cases outer : nkey <+: key
  · obtain ⟨rest, rfl⟩ := outer
    rw [lookup_short_append]
    by_cases inner : ckey <+: rest
    · obtain ⟨tail, rfl⟩ := inner
      rw [lookup_short_append, ← List.append_assoc, lookup_short_append]
    · rw [lookup_short_outside cval flags inner, lookup_short_outside cval flags'']
      rwa [List.prefix_append_right_inj]
  · rw [lookup_short_outside _ flags' outer, lookup_short_outside cval flags'']
    exact fun grown => outer (List.prefix_append nkey ckey |>.trans grown)

/-- A value under a one-node path. -/
theorem lookup_short_value (nkey : List Nibble) (v : List UInt8) (flags : NodeFlag) (key : List Nibble) :
    (Node.short nkey (.value v) flags).lookup key = if key = nkey then some v else none := by
  by_cases on : nkey <+: key
  · obtain ⟨rest, rfl⟩ := on
    rw [lookup_short_append, lookup_value]
    simp
  · rw [lookup_short_outside _ flags on, if_neg]
    rintro rfl
    exact on (List.prefix_refl key)

/-- Both forms of a leaf hold the same. -/
theorem lookup_leaf (flags : NodeFlag) (rest : List Nibble) (x : Node) :
    (leaf flags rest x).lookup = (Node.short rest x flags).lookup := by
  funext key
  unfold leaf
  split
  · next none => rw [List.length_eq_zero_iff.mp none, lookup_short_nil]
  · rfl

/-- Children that hold the same make short nodes that hold the same. -/
theorem lookup_short_congr {x y : Node} (same : x.lookup = y.lookup) (nkey : List Nibble) (flags : NodeFlag) :
    (Node.short nkey x flags).lookup = (Node.short nkey y flags).lookup := by
  funext key
  rw [lookup_short, lookup_short, same]

theorem lookup_short_cons (i : Nibble) (rest : List Nibble) (x : Node) (flags flags' : NodeFlag)
    (j : Nibble) (key : List Nibble) :
    (Node.short (i :: rest) x flags).lookup (j :: key) =
      if j = i then (Node.short rest x flags').lookup key else none := by
  split
  · next same =>
    subst same
    rw [lookup_short, lookup_short]
    simp only [List.prefix_cons_inj, List.length_cons, List.drop_succ_cons]
  · next differ =>
    apply lookup_short_outside
    rw [List.cons_prefix_cons]
    exact fun ⟨same, _⟩ => differ same.symm

/-- A full node with one child holds what the short node of its index holds. -/
theorem lookup_full_single {children : Fin 17 → Node} {p : Nibble}
    (alone : ∀ j, j ≠ p → (children j).isPresent = false) (flags flags' : NodeFlag) (key : List Nibble) :
    (Node.full children flags).lookup key = (Node.short [p] (children p) flags').lookup key := by
  cases key with
  | nil => rw [lookup_full_nil, lookup_short_outside _ _ (by simp)]
  | cons j rest =>
    rw [lookup_full_cons, lookup_short_cons p [] _ flags' flags', lookup_short_nil]
    split
    · next same => rw [same]
    · next differ =>
      have absent := alone j differ
      cases child : children j <;> simp_all [Node.isPresent]

/-- A present node that is not loaded, or a present child of a present node. -/
theorem isPresent_of_lookup {n : Node} {key : List Nibble} {v : List UInt8}
    (found : n.lookup key = some v) : n.isPresent := by
  cases n with
  | empty => simp at found
  | _ => rfl

/-! ## Updates -/

section Updates

variable {key : List Nibble} {o : Option (List UInt8)}

/-- An update below a short node is an update of the short node. -/
theorem Updates.short {nval nn : Node} (nkey : List Nibble) (below : Updates nval nn key o)
    (flags flags' : NodeFlag) : Updates (.short nkey nval flags) (.short nkey nn flags') (nkey ++ key) o := by
  intro k
  by_cases on : nkey <+: k
  · obtain ⟨rest, rfl⟩ := on
    rw [lookup_short_append, lookup_short_append, below rest]
    simp
  · rw [lookup_short_outside _ _ on, lookup_short_outside _ _ on, if_neg]
    rintro rfl
    exact on (List.prefix_append nkey key)

/-- An update below a child is an update of the full node. -/
theorem Updates.full {children : Fin 17 → Node} {nn : Node} (i : Nibble)
    (below : Updates (children i) nn key o) (flags flags' : NodeFlag) :
    Updates (.full children flags) (.full (Function.update children i nn) flags') (i :: key) o := by
  intro k
  cases k with
  | nil => simp
  | cons j rest =>
    rw [lookup_full_cons, lookup_full_cons]
    by_cases same : j = i
    · subst same
      rw [Function.update_self, below rest]
      simp
    · rw [Function.update_of_ne same, if_neg (by simp [same])]

/-- Two nodes that hold the same, updated alike. -/
theorem Updates.congr {n m n' m' : Node} (same : n.lookup = m.lookup) (same' : n'.lookup = m'.lookup)
    (update : Updates n n' key o) : Updates m m' key o := by
  intro k
  rw [← same, ← same', update k]

/-- Nothing changes where the key already holds `o`. -/
theorem updates_self {n : Node} (holds : n.lookup key = o) : Updates n n key o := by
  intro k
  split
  · next same => rw [same, holds]
  · rfl

end Updates

/-! ## Terminated keys -/

/-- A terminated key is no proper prefix of another: the terminator ends both. -/
theorem Terminated.eq_of_prefix {key key' : List Nibble} (term : Terminated key) (term' : Terminated key')
    (pre : key <+: key') : key = key' := by
  obtain ⟨body, clean, rfl⟩ := term
  obtain ⟨body', clean', rfl⟩ := term'
  obtain ⟨rest, grown⟩ := pre
  rw [List.append_assoc, List.append_eq_append_iff] at grown
  rcases grown with ⟨more, rfl, split⟩ | ⟨more, rfl, split⟩
  · cases more with
    | nil => simp
    | cons x more =>
      simp only [List.cons_append, List.nil_append, List.cons.injEq] at split
      exact absurd (by simp [split.1]) clean'
  · cases more with
    | nil => simp_all
    | cons x more => simp at split

theorem Terminated.eq_nil_of_append {key rest : List Nibble} (term : Terminated key)
    (term' : Terminated (key ++ rest)) : rest = [] := by
  simpa using term.eq_of_prefix term' (List.prefix_append key rest)

theorem Terminated.ne_nil {key : List Nibble} (term : Terminated key) : key ≠ [] := by
  obtain ⟨body, _, rfl⟩ := term
  simp

/-- The terminator is the last nibble, so a terminated key ending in `i` ends in 16. -/
theorem Terminated.eq_of_concat {pref : List Nibble} {i : Nibble} (term : Terminated (pref ++ [i])) :
    i = 16 := by
  obtain ⟨body, _, ended⟩ := term
  have last := (List.append_inj' ended rfl).2
  simpa using last

/-- Nothing follows the terminator of a terminated key. -/
theorem Terminated.eq_nil_of_terminator {pref rest : List Nibble} (term : Terminated (pref ++ 16 :: rest)) :
    rest = [] := by
  obtain ⟨body, clean, ended⟩ := term
  by_contra more
  have dropped := congrArg List.dropLast ended
  rw [List.dropLast_concat, List.dropLast_append_of_ne_nil (List.cons_ne_nil 16 rest),
    List.dropLast_cons_of_ne_nil more] at dropped
  exact clean (dropped ▸ List.mem_append_right pref List.mem_cons_self)

theorem terminated_keybytesToHex (str : List UInt8) : Terminated (keybytesToHex str) := by
  refine ⟨str.flatMap byteNibbles, ?_, rfl⟩
  simp only [List.mem_flatMap, byteNibbles, List.mem_cons, List.not_mem_nil, or_false, not_exists,
    not_and]
  intro b _
  have fits := b.toNat_lt
  rintro (high | low)
  · have := congrArg Fin.val high
    simp at this
    omega
  · have := congrArg Fin.val low
    simp at this
    omega

theorem IsHexKey.terminated {key : List Nibble} (hex : IsHexKey key) : Terminated key := by
  obtain ⟨str, rfl⟩ := hex
  exact terminated_keybytesToHex str

/-! ## Valid nodes -/

section Valid

variable {pref : List Nibble}

theorem Valid.short {nkey : List Nibble} {nval : Node} {flags : NodeFlag}
    (valid : Valid pref (.short nkey nval flags)) : Valid (pref ++ nkey) nval := by
  intro key v found
  rw [List.append_assoc]
  exact valid (nkey ++ key) v (by rwa [lookup_short_append])

theorem Valid.full {children : Fin 17 → Node} {flags : NodeFlag}
    (valid : Valid pref (.full children flags)) (i : Nibble) : Valid (pref ++ [i]) (children i) := by
  intro key v found
  rw [List.append_assoc, List.singleton_append]
  exact valid (i :: key) v (by rwa [lookup_full_cons])

/-- A valid node holds a terminated key only as its whole key. -/
theorem Valid.eq_of_terminated {n : Node} {key rest : List Nibble} {v : List UInt8} (valid : Valid pref n)
    (term : Terminated (pref ++ key)) (found : n.lookup (key ++ rest) = some v) : rest = [] := by
  have longer := valid _ v found
  rw [← List.append_assoc] at longer
  exact term.eq_nil_of_append longer

/-- Behind a terminated path a valid node holds at most the empty key. -/
theorem Valid.lookup_of_terminated {n : Node} (valid : Valid pref n) (term : Terminated pref)
    {key : List Nibble} (nonempty : key ≠ []) : n.lookup key = none := by
  cases found : n.lookup key with
  | none => rfl
  | some v =>
    have whole : Terminated (pref ++ []) := by simpa using term
    have := valid.eq_of_terminated whole (by simpa using found)
    exact absurd this nonempty

/-- Updates keep validity when the key updated is terminated. -/
theorem Valid.of_updates {n n' : Node} {key : List Nibble} {o : Option (List UInt8)}
    (valid : Valid pref n) (term : Terminated (pref ++ key)) (update : Updates n n' key o) :
    Valid pref n' := by
  intro k v found
  rw [update k] at found
  split at found
  · next same => exact same ▸ term
  · exact valid k v found

end Valid

/-! ## Well-formed nodes -/

theorem Node.WF.exists_lookup : ∀ {n : Node}, n.WF → n.isPresent → ∃ key v, n.lookup key = some v
  | .empty, _, present => absurd present (by decide)
  | .value v, _, _ => ⟨[], v, rfl⟩
  | .short nkey nval _, ⟨_, present, _, wf⟩, _ => by
    obtain ⟨key, v, found⟩ := Node.WF.exists_lookup wf present
    exact ⟨nkey ++ key, v, by rwa [lookup_short_append]⟩
  | .full children _, ⟨⟨a, _, _, present, _⟩, wf⟩, _ => by
    obtain ⟨key, v, found⟩ := Node.WF.exists_lookup (wf a) present
    exact ⟨a :: key, v, found⟩
  | .hash _, wf, _ => absurd wf id

/-- A well-formed node behind a terminated path is empty or a value. -/
theorem Node.WF.eq_value_of_terminated {n : Node} {pref : List Nibble} (wf : n.WF) (valid : Valid pref n)
    (term : Terminated pref) : n = .empty ∨ ∃ v, n = .value v := by
  cases n with
  | empty => exact .inl rfl
  | value v => exact .inr ⟨v, rfl⟩
  | hash h => exact absurd wf id
  | short nkey nval flags =>
    obtain ⟨nonempty, present, _, wf⟩ := wf
    obtain ⟨key, v, found⟩ := wf.exists_lookup present
    have held : (Node.short nkey nval flags).lookup (nkey ++ key) = some v := by
      rwa [lookup_short_append]
    rw [valid.lookup_of_terminated term (by simp [nonempty])] at held
    cases held
  | full children flags =>
    obtain ⟨key, v, found⟩ := Node.WF.exists_lookup (n := .full children flags) wf rfl
    cases key with
    | nil => cases found
    | cons i rest =>
      rw [valid.lookup_of_terminated term (by simp)] at found
      cases found

/-- A full node holds two keys that differ in their first nibble. -/
theorem Node.WF.two_keys {children : Fin 17 → Node} {flags : NodeFlag} (wf : (Node.full children flags).WF) :
    ∃ a b, a ≠ b ∧ ∃ ka kb va vb,
      (children a).lookup ka = some va ∧ (children b).lookup kb = some vb := by
  obtain ⟨⟨a, b, differ, presentA, presentB⟩, wf⟩ := wf
  obtain ⟨ka, va, foundA⟩ := (wf a).exists_lookup presentA
  obtain ⟨kb, vb, foundB⟩ := (wf b).exists_lookup presentB
  exact ⟨a, b, differ, ka, kb, va, vb, foundA, foundB⟩

/-- A node that holds nothing is empty. -/
theorem Node.WF.eq_empty {n : Node} (wf : n.WF) (nothing : ∀ key, n.lookup key = none) : n = .empty := by
  cases present : n.isPresent
  · cases n <;> simp_all [Node.isPresent]
  · obtain ⟨key, v, found⟩ := wf.exists_lookup present
    rw [nothing key] at found
    cases found

theorem TwoChildren.update {children : Fin 17 → Node} (two : TwoChildren children) (i : Nibble)
    {nn : Node} (present : nn.isPresent) : TwoChildren (Function.update children i nn) := by
  obtain ⟨a, b, differ, presentA, presentB⟩ := two
  refine ⟨a, b, differ, ?_, ?_⟩
  · by_cases same : a = i
    · rw [same, Function.update_self]; exact present
    · rwa [Function.update_of_ne same]
  · by_cases same : b = i
    · rw [same, Function.update_self]; exact present
    · rwa [Function.update_of_ne same]

/-- A second child stays when one is replaced. -/
theorem TwoChildren.other {children : Fin 17 → Node} (two : TwoChildren children) (i : Nibble) :
    ∃ j, j ≠ i ∧ (children j).isPresent := by
  obtain ⟨a, b, differ, presentA, presentB⟩ := two
  by_cases same : a = i
  · exact ⟨b, fun back => differ (same.trans back.symm), presentB⟩
  · exact ⟨a, same, presentA⟩

theorem eq_empty_of_isPresent_eq_false {n : Node} (absent : n.isPresent = false) : n = .empty := by
  cases n <;> simp_all [Node.isPresent]

/-- Behind the terminator a well-formed node is empty or a value. -/
theorem Valid.eq_value_of_last {pref : List Nibble} {n : Node} (valid : Valid (pref ++ [16]) n) (wf : n.WF) :
    n = .empty ∨ ∃ v, n = .value v := by
  cases present : n.isPresent
  · exact .inl (eq_empty_of_isPresent_eq_false present)
  · obtain ⟨key, v, found⟩ := wf.exists_lookup present
    have term := valid key v found
    rw [List.append_assoc, List.singleton_append] at term
    obtain rfl := term.eq_nil_of_terminator
    exact wf.eq_value_of_terminated valid (by simpa using valid [] v found)

end TomoChain.Mpt
