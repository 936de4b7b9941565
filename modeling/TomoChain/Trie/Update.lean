import Mathlib
import TomoChain.Trie.Map
import TomoChain.Lib.Except

set_option autoImplicit false

/-! What `insert`, `delete` and `tryGet` do to the map a well-formed trie in memory
stands for: `insert` and `delete` update it at the key and keep the minimal shape, and
`tryGet` reads it, each given more fuel than the key has nibbles. The proofs go by the
fuel, with one step lemma per branch of the code (`insert_short_match`,
`delete_full_one`, ...) and one lemma per branch for the result (`Inserted.short`,
`Deleted.full_one`, ...). -/
namespace TomoChain.Mpt

open Lib

/-- The short node `delete` leaves over a child, merged with it when the child is short. -/
def merge (flags : NodeFlag) (nkey : List Nibble) : Node → Node
  | .short ckey cval _ => .short (nkey ++ ckey) cval flags
  | child => .short nkey child flags

theorem lookup_merge (flags : NodeFlag) (nkey : List Nibble) (child : Node) :
    (merge flags nkey child).lookup = (Node.short nkey child flags).lookup := by
  funext key
  cases child with
  | short ckey cval cflags => exact (lookup_short_short nkey ckey cval cflags flags flags key).symm
  | _ => rfl

theorem merge_wf (flags : NodeFlag) {nkey : List Nibble} {child : Node} (nonempty : nkey ≠ [])
    (wf : child.WF) (present : child.isPresent) : (merge flags nkey child).WF := by
  cases child with
  | short ckey cval cflags =>
    obtain ⟨_, cpresent, cshort, cwf⟩ := wf
    exact ⟨by simp [nonempty], cpresent, cshort, cwf⟩
  | empty => cases present
  | full children cflags => exact ⟨nonempty, rfl, rfl, wf⟩
  | value v => exact ⟨nonempty, rfl, rfl, wf⟩
  | hash h => exact absurd wf id

theorem leaf_isPresent (flags : NodeFlag) (rest : List Nibble) {x : Node} (present : x.isPresent) :
    (leaf flags rest x).isPresent := by
  unfold leaf
  split
  · exact present
  · rfl

theorem leaf_wf (flags : NodeFlag) (rest : List Nibble) {x : Node} (wf : x.WF) (present : x.isPresent)
    (notShort : x.isShort = false) : (leaf flags rest x).WF := by
  unfold leaf
  split
  · exact wf
  · next some => exact ⟨by simpa using some, present, notShort, wf⟩

/-- A value under an empty node. -/
theorem updates_empty_leaf (flags : NodeFlag) (key : List Nibble) (v : List UInt8) :
    Updates .empty (leaf flags key (.value v)) key (some v) := by
  intro k
  rw [lookup_leaf, lookup_short_value, lookup_empty]

/-! ## The loop of `delete` over the children -/

/-- `remainingPos` by the present children: the position of the only one, `-1` for none
and `-2` for more. -/
theorem remainingPos_eq (children : Fin 17 → Node) :
    ∀ (order : List (Fin 17)) (pos : Int), remainingPos children order pos =
      match order.filter fun i => (children i).isPresent with
      | [] => pos
      | [j] => if pos = -1 then (j.val : Int) else -2
      | _ :: _ :: _ => -2
  | [], _ => rfl
  | i :: rest, pos => by
    rw [remainingPos, List.filter_cons]
    split
    · next present =>
      split
      · next first =>
        rw [remainingPos_eq children rest i.val]
        subst first
        rcases rest.filter fun i => (children i).isPresent with _ | ⟨j, _ | ⟨k, more⟩⟩
        · simp
        · have : (i.val : Int) ≠ -1 := by omega
          simp [this]
        · simp
      · next later =>
        rcases rest.filter fun i => (children i).isPresent with _ | ⟨j, more⟩ <;> simp
    · next absent =>
      exact remainingPos_eq children rest pos

/-- What the loop finds among all children: none, exactly one, or two. -/
theorem remainingPos_cases (children : Fin 17 → Node) :
    (remainingPos children (List.finRange 17) (-1) = -1 ∧ ∀ j, (children j).isPresent = false) ∨
    (∃ j : Fin 17, remainingPos children (List.finRange 17) (-1) = j.val ∧ (children j).isPresent ∧
      ∀ k, k ≠ j → (children k).isPresent = false) ∨
    (remainingPos children (List.finRange 17) (-1) = -2 ∧ TwoChildren children) := by
  rw [remainingPos_eq]
  have unique := (List.nodup_finRange 17).filter fun i => (children i).isPresent
  have listed : ∀ j, j ∈ (List.finRange 17).filter (fun i => (children i).isPresent) ↔ (children j).isPresent := by
    intro j
    simp [List.mem_filter, List.mem_finRange]
  rcases found : (List.finRange 17).filter fun i => (children i).isPresent with _ | ⟨j, _ | ⟨k, more⟩⟩
  · refine .inl ⟨rfl, fun j => ?_⟩
    have := listed j
    rw [found] at this
    simpa using this
  · refine .inr (.inl ⟨j, by simp, (listed j).mp (by simp [found]), fun k other => ?_⟩)
    have := listed k
    rw [found] at this
    simpa [other] using this
  · rw [found] at unique
    refine .inr (.inr ⟨rfl, j, k, ?_, (listed j).mp (by simp [found]), (listed k).mp (by simp [found])⟩)
    exact (List.nodup_cons.mp unique).1 ∘ fun same => same ▸ List.mem_cons_self

theorem update_wf {children : Fin 17 → Node} (wfs : ∀ j, (children j).WF) (i : Nibble) {nn : Node} (wf : nn.WF) :
    ∀ j, (Function.update children i nn j).WF := by
  intro j
  by_cases same : j = i
  · rw [same, Function.update_self]
    exact wf
  · rw [Function.update_of_ne same]
    exact wfs j

/-! ## What `insert` gives -/

/-- What inserting `v` under `key` into `n` must give: a well-formed node that holds `v`
there and what `n` held elsewhere, `n` itself when nothing changed, and no short node
where `n` was a present node of another kind, so that a short node above stays minimal. -/
structure Inserted (n : Node) (key : List Nibble) (v : List UInt8) (dirty : Bool) (n' : Node) : Prop where
  wf : n'.WF
  present : n'.isPresent
  updates : Updates n n' key (some v)
  clean : dirty = false → n' = n
  notShort : n.isPresent → n.isShort = false → n'.isShort = false

section Inserted

variable {key : List Nibble} {v : List UInt8}

theorem Inserted.holds {n n' : Node} {dirty : Bool} (inserted : Inserted n key v dirty n') :
    n'.lookup key = some v := by
  rw [inserted.updates key, if_pos rfl]

theorem inserted_clean {n : Node} (wf : n.WF) (present : n.isPresent) (holds : n.lookup key = some v) :
    Inserted n key v false n :=
  ⟨wf, present, updates_self holds, fun _ => rfl, fun _ notShort => notShort⟩

theorem inserted_empty (flags : NodeFlag) : Inserted .empty key v true (leaf flags key (.value v)) :=
  ⟨leaf_wf flags key trivial rfl rfl, leaf_isPresent flags key rfl, updates_empty_leaf flags key v, nofun, nofun⟩

theorem inserted_value_nil (v₀ : List UInt8) : Inserted (.value v₀) [] v (v₀ != v) (.value v) := by
  refine ⟨trivial, rfl, fun k => ?_, fun same => ?_, fun _ _ => rfl⟩
  · rw [lookup_value, lookup_value]
    by_cases ended : k = [] <;> simp [ended]
  · rw [bne_eq_false_iff_eq] at same
    rw [same]

theorem Inserted.short {nkey rest : List Nibble} {nval nn : Node} {flags : NodeFlag} (f : NodeFlag)
    (below : Inserted nval rest v true nn) (wf : (Node.short nkey nval flags).WF) :
    Inserted (.short nkey nval flags) (nkey ++ rest) v true (.short nkey nn f) := by
  obtain ⟨nonempty, present, notShort, _⟩ := wf
  exact ⟨⟨nonempty, below.present, below.notShort present notShort, below.wf⟩, rfl,
    below.updates.short nkey flags f, nofun, fun _ short => nomatch short⟩

theorem Inserted.short_clean {nkey rest : List Nibble} {nval nn : Node} {flags : NodeFlag}
    (below : Inserted nval rest v false nn) (wf : (Node.short nkey nval flags).WF) :
    Inserted (.short nkey nval flags) (nkey ++ rest) v false (.short nkey nval flags) := by
  have holds := below.holds
  rw [below.clean rfl] at holds
  exact inserted_clean wf rfl (by rwa [lookup_short_append])

theorem Inserted.full {children : Fin 17 → Node} {flags : NodeFlag} {i : Nibble} {rest : List Nibble} {nn : Node}
    (f : NodeFlag) (below : Inserted (children i) rest v true nn) (wf : (Node.full children flags).WF) :
    Inserted (.full children flags) (i :: rest) v true (.full (Function.update children i nn) f) :=
  ⟨⟨wf.1.update i below.present, update_wf wf.2 i below.wf⟩, rfl, below.updates.full i flags f, nofun,
    fun _ _ => rfl⟩

theorem Inserted.full_clean {children : Fin 17 → Node} {flags : NodeFlag} {i : Nibble} {rest : List Nibble}
    {nn : Node} (below : Inserted (children i) rest v false nn) (wf : (Node.full children flags).WF) :
    Inserted (.full children flags) (i :: rest) v false (.full children flags) := by
  have holds := below.holds
  rw [below.clean rfl] at holds
  exact inserted_clean wf rfl holds

/-- Where the new key parts from a short node's key after the common prefix `c`: the old
node's keys go under `a`, the new key under `b`. -/
theorem inserted_branch {c nr : List Nibble} (kr : List Nibble) {a b : Nibble} (differ : a ≠ b) {nval : Node}
    {flags : NodeFlag} (f : NodeFlag) (wf : (Node.short (c ++ a :: nr) nval flags).WF) :
    Inserted (.short (c ++ a :: nr) nval flags) (c ++ b :: kr) v true
      (leaf f c (.full (Function.update (Function.update noChildren a (leaf f nr nval)) b (leaf f kr (.value v))) f)) := by
  obtain ⟨_, present, notShort, nwf⟩ := wf
  have old : (Node.full (Function.update noChildren a (leaf f nr nval)) f).lookup =
      (Node.short (a :: nr) nval flags).lookup := by
    have alone : ∀ j, j ≠ a → (Function.update noChildren a (leaf f nr nval) j).isPresent = false := by
      intro j other
      rw [Function.update_of_ne other]
      rfl
    funext k
    rw [lookup_full_single alone f f k, Function.update_self, lookup_short_congr (lookup_leaf f nr nval),
      lookup_short_short [a] nr nval f f flags k]
    rfl
  have fresh : Updates (Function.update noChildren a (leaf f nr nval) b) (leaf f kr (.value v)) kr (some v) := by
    rw [Function.update_of_ne (Ne.symm differ)]
    exact updates_empty_leaf f kr v
  have inner := (fresh.full b f f).congr old rfl
  have outer := (inner.short c f f).congr (funext fun k => lookup_short_short c (a :: nr) nval flags f flags k)
    (lookup_leaf f c _).symm
  have children : ∀ j,
      (Function.update (Function.update noChildren a (leaf f nr nval)) b (leaf f kr (.value v)) j).WF := by
    intro j
    by_cases atB : j = b
    · rw [atB, Function.update_self]
      exact leaf_wf f kr trivial rfl rfl
    · rw [Function.update_of_ne atB]
      by_cases atA : j = a
      · rw [atA, Function.update_self]
        exact leaf_wf f nr nwf present notShort
      · rw [Function.update_of_ne atA]
        trivial
  have two : TwoChildren (Function.update (Function.update noChildren a (leaf f nr nval)) b (leaf f kr (.value v))) := by
    refine ⟨a, b, differ, ?_, ?_⟩
    · rw [Function.update_of_ne differ, Function.update_self]
      exact leaf_isPresent f nr present
    · rw [Function.update_self]
      exact leaf_isPresent f kr rfl
  exact ⟨leaf_wf f c ⟨two, children⟩ rfl rfl, leaf_isPresent f c rfl, outer, nofun, fun _ short => nomatch short⟩

end Inserted

/-! ## What `delete` gives -/

/-- What deleting `key` from `n` must give: a well-formed node that holds nothing there
and what `n` held elsewhere, and `n` itself when nothing changed. -/
structure Deleted (n : Node) (key : List Nibble) (dirty : Bool) (n' : Node) : Prop where
  wf : n'.WF
  updates : Updates n n' key none
  clean : dirty = false → n' = n

section Deleted

variable {key : List Nibble}

theorem Deleted.absent {n n' : Node} {dirty : Bool} (deleted : Deleted n key dirty n') : n'.lookup key = none := by
  rw [deleted.updates key, if_pos rfl]

theorem deleted_clean {n : Node} (wf : n.WF) (absent : n.lookup key = none) : Deleted n key false n :=
  ⟨wf, updates_self absent, fun _ => rfl⟩

theorem deleted_empty : Deleted .empty key false .empty := deleted_clean trivial (lookup_empty key)

/-- A value ends every key through it, so the key deleted is the empty one. -/
theorem deleted_value {pref : List Nibble} {v : List UInt8} (valid : Valid pref (.value v))
    (term : Terminated (pref ++ key)) : Deleted (.value v) key true .empty := by
  have ended : Terminated pref := by simpa using valid [] v rfl
  obtain rfl := ended.eq_nil_of_append term
  refine ⟨trivial, fun k => ?_, nofun⟩
  rw [lookup_empty, lookup_value]
  by_cases at_end : k = [] <;> simp [at_end]

/-- The key that is a short node's whole key is the only key the node holds. -/
theorem deleted_whole {pref nkey : List Nibble} {nval : Node} {flags : NodeFlag}
    (valid : Valid pref (.short nkey nval flags)) (term : Terminated (pref ++ nkey)) :
    Deleted (.short nkey nval flags) nkey true .empty := by
  refine ⟨trivial, fun k => ?_, nofun⟩
  rw [lookup_empty]
  split
  · rfl
  · next other =>
    cases found : (Node.short nkey nval flags).lookup k with
    | none => rfl
    | some w =>
      obtain ⟨rest, rfl, _⟩ := lookup_short_eq_some found
      have longer := valid _ w found
      rw [← List.append_assoc] at longer
      rw [term.eq_nil_of_append longer, List.append_nil] at other
      exact absurd rfl other

theorem Deleted.short {nkey rest : List Nibble} {nval child : Node} {flags : NodeFlag} (f : NodeFlag)
    (below : Deleted nval rest true child) (wf : (Node.short nkey nval flags).WF) (present : child.isPresent) :
    Deleted (.short nkey nval flags) (nkey ++ rest) true (merge f nkey child) :=
  ⟨merge_wf f wf.1 below.wf present, (below.updates.short nkey flags f).congr rfl (lookup_merge f nkey child).symm,
    nofun⟩

theorem Deleted.short_clean {nkey rest : List Nibble} {nval child : Node} {flags : NodeFlag}
    (below : Deleted nval rest false child) (wf : (Node.short nkey nval flags).WF) :
    Deleted (.short nkey nval flags) (nkey ++ rest) false (.short nkey nval flags) := by
  have absent := below.absent
  rw [below.clean rfl] at absent
  exact deleted_clean wf (by rwa [lookup_short_append])

section Full

variable {children : Fin 17 → Node} {flags : NodeFlag} {i : Nibble} {rest : List Nibble} {nn : Node}

theorem Deleted.full_clean (below : Deleted (children i) rest false nn) (wf : (Node.full children flags).WF) :
    Deleted (.full children flags) (i :: rest) false (.full children flags) := by
  have absent := below.absent
  rw [below.clean rfl] at absent
  exact deleted_clean wf absent

theorem Deleted.full_many (f : NodeFlag) (below : Deleted (children i) rest true nn)
    (wf : (Node.full children flags).WF) (many : TwoChildren (Function.update children i nn)) :
    Deleted (.full children flags) (i :: rest) true (.full (Function.update children i nn) f) :=
  ⟨⟨many, update_wf wf.2 i below.wf⟩, below.updates.full i flags f, nofun⟩

theorem Deleted.full_one (f : NodeFlag) (below : Deleted (children i) rest true nn)
    (wf : (Node.full children flags).WF) {j : Nibble}
    (others : ∀ k, k ≠ j → (Function.update children i nn k).isPresent = false)
    (present : (Function.update children i nn j).isPresent) :
    Deleted (.full children flags) (i :: rest) true (merge f [j] (Function.update children i nn j)) := by
  have single : (Node.full (Function.update children i nn) f).lookup =
      (merge f [j] (Function.update children i nn j)).lookup := by
    funext k
    rw [lookup_full_single others f f k, lookup_merge]
  exact ⟨merge_wf f (List.cons_ne_nil j []) (update_wf wf.2 i below.wf j) present,
    (below.updates.full i flags f).congr rfl single, nofun⟩

/-- Only the slot of the terminator stays: it holds a value, which a short node of the
terminator may hold. -/
theorem Deleted.full_last {pref : List Nibble} (f : NodeFlag) (below : Deleted (children i) rest true nn)
    (wf : (Node.full children flags).WF) (valid : Valid pref (.full children flags))
    (term : Terminated (pref ++ i :: rest))
    (others : ∀ k, k ≠ 16 → (Function.update children i nn k).isPresent = false)
    (present : (Function.update children i nn 16).isPresent) :
    Deleted (.full children flags) (i :: rest) true (.short [16] (Function.update children i nn 16) f) := by
  have updates := below.updates.full i flags f
  have valid' := valid.of_updates term updates
  have childWF := update_wf wf.2 i below.wf 16
  have notShort : (Function.update children i nn 16).isShort = false := by
    rcases (valid'.full 16).eq_value_of_last childWF with same | ⟨w, same⟩ <;> rw [same] <;> rfl
  exact ⟨⟨List.cons_ne_nil 16 [], present, notShort, childWF⟩,
    updates.congr rfl (funext fun k => lookup_full_single others f f k), nofun⟩

/-- A full node keeps a key when one is deleted. -/
theorem Deleted.isPresent_of_full {dirty : Bool} {child : Node} (deleted : Deleted (.full children flags) rest dirty child)
    (wf : (Node.full children flags).WF) : child.isPresent := by
  obtain ⟨a, b, differ, ka, kb, va, vb, foundA, foundB⟩ := wf.two_keys
  by_cases atA : a :: ka = rest
  · have other : ¬ b :: kb = rest := by
      rintro rfl
      exact differ (List.cons.inj atA).1
    exact isPresent_of_lookup (show child.lookup (b :: kb) = some vb by rw [deleted.updates, if_neg other]; exact foundB)
  · exact isPresent_of_lookup (show child.lookup (a :: ka) = some va by rw [deleted.updates, if_neg atA]; exact foundA)

end Full

end Deleted

section Steps

variable (resolveHash : List UInt8 → List Nibble → UInt16 → Except TrieError Node) (cachegen : UInt16)
variable {fuel : Nat} {pref key : List Nibble}

/-! ## The branches of `insert`

Each lemma reads one branch of the code by unfolding the step at hand, without the
equation lemmas of the operation, and names the test that picks the branch. -/

theorem insert_empty (x : Node) :
    insert resolveHash cachegen (fuel + 1) .empty pref key x = .ok (true, leaf (newFlag cachegen) key x) := by
  show (if key.length = 0 then _ else _) = _
  unfold leaf
  split <;> rfl

theorem insert_value_nil (v v' : List UInt8) :
    insert resolveHash cachegen (fuel + 1) (.value v) pref [] (.value v') = .ok (v != v', .value v') :=
  rfl

theorem insert_value_cons (v v' : List UInt8) (i : Nibble) (rest : List Nibble) :
    insert resolveHash cachegen (fuel + 1) (.value v) pref (i :: rest) (.value v') = .error .invalidNode :=
  rfl

theorem insert_short_match (nkey : List Nibble) (nval : Node) (flags : NodeFlag) (x : Node) {dirty : Bool}
    {nn : Node} (nonempty : key ≠ []) (matched : prefixLen key nkey = nkey.length)
    (below : insert resolveHash cachegen fuel nval (pref ++ nkey) (key.drop nkey.length) x = .ok (dirty, nn)) :
    insert resolveHash cachegen (fuel + 1) (.short nkey nval flags) pref key x =
      .ok (if dirty then (true, .short nkey nn (newFlag cachegen)) else (false, .short nkey nval flags)) := by
  have long : key.length ≠ 0 := by simpa using nonempty
  have common : key.take (prefixLen key nkey) = nkey := by
    rw [take_prefixLen, matched, List.take_length]
  refine (if_neg long).trans ((if_pos matched).trans ?_)
  show (insert resolveHash cachegen fuel nval (pref ++ key.take (prefixLen key nkey)) (key.drop (prefixLen key nkey)) x
    >>= _) = _
  rw [common, matched, below]
  cases dirty <;> rfl

/-- Where the keys part, a full node with the old and the new leaf, under a short node
of the common prefix when there is one. -/
theorem insert_short_branch (nkey : List Nibble) (nval : Node) (flags : NodeFlag) (x : Node)
    (nonempty : key ≠ []) (differ : prefixLen key nkey ≠ nkey.length) :
    insert resolveHash cachegen (fuel + 2) (.short nkey nval flags) pref key x =
      .ok (true, leaf (newFlag cachegen) (key.take (prefixLen key nkey))
        (.full (Function.update (Function.update noChildren (nkey.getD (prefixLen key nkey) 0)
            (leaf (newFlag cachegen) (nkey.drop (prefixLen key nkey + 1)) nval))
          (key.getD (prefixLen key nkey) 0) (leaf (newFlag cachegen) (key.drop (prefixLen key nkey + 1)) x))
          (newFlag cachegen))) := by
  have long : key.length ≠ 0 := by simpa using nonempty
  have within : (key.take (prefixLen key nkey)).length = prefixLen key nkey := by
    simpa using prefixLen_le_left key nkey
  refine (if_neg long).trans ((if_neg differ).trans ?_)
  -- the two inner inserts into the empty node give the two leaves
  show (insert resolveHash cachegen (fuel + 1) .empty _ (nkey.drop (prefixLen key nkey + 1)) nval >>= _) = _
  rw [insert_empty]
  show (insert resolveHash cachegen (fuel + 1) .empty _ (key.drop (prefixLen key nkey + 1)) x >>= _) = _
  rw [insert_empty]
  show (if prefixLen key nkey = 0 then _ else _) = _
  unfold leaf
  rw [within]
  split <;> rfl

theorem insert_full (children : Fin 17 → Node) (flags : NodeFlag) (x : Node) (i : Nibble) (rest : List Nibble)
    {dirty : Bool} {nn : Node}
    (below : insert resolveHash cachegen fuel (children i) (pref ++ [i]) rest x = .ok (dirty, nn)) :
    insert resolveHash cachegen (fuel + 1) (.full children flags) pref (i :: rest) x =
      .ok (if dirty then (true, .full (Function.update children i nn) (newFlag cachegen))
        else (false, .full children flags)) := by
  show (insert resolveHash cachegen fuel (children i) (pref ++ [i]) rest x >>= _) = _
  rw [below]
  cases dirty <;> rfl

/-! ## The branches of `delete` -/

theorem delete_empty : delete resolveHash cachegen (fuel + 1) .empty pref key = .ok (false, .empty) := rfl

theorem delete_value (v : List UInt8) :
    delete resolveHash cachegen (fuel + 1) (.value v) pref key = .ok (true, .empty) := rfl

theorem delete_short_off (nkey : List Nibble) (nval : Node) (flags : NodeFlag)
    (off : prefixLen key nkey < nkey.length) :
    delete resolveHash cachegen (fuel + 1) (.short nkey nval flags) pref key = .ok (false, .short nkey nval flags) :=
  if_pos off

theorem delete_short_whole (nkey : List Nibble) (nval : Node) (flags : NodeFlag)
    (on : ¬ prefixLen key nkey < nkey.length) (whole : prefixLen key nkey = key.length) :
    delete resolveHash cachegen (fuel + 1) (.short nkey nval flags) pref key = .ok (true, .empty) :=
  (if_neg on).trans (if_pos whole)

theorem delete_short_below (nkey : List Nibble) (nval : Node) (flags : NodeFlag) {dirty : Bool} {child : Node}
    (on : ¬ prefixLen key nkey < nkey.length) (longer : prefixLen key nkey ≠ key.length)
    (below : delete resolveHash cachegen fuel nval (pref ++ nkey) (key.drop nkey.length) = .ok (dirty, child)) :
    delete resolveHash cachegen (fuel + 1) (.short nkey nval flags) pref key =
      .ok (if dirty then (true, merge (newFlag cachegen) nkey child) else (false, .short nkey nval flags)) := by
  have matched : prefixLen key nkey = nkey.length := by
    have := prefixLen_le_right key nkey
    omega
  have common : key.take nkey.length = nkey := by
    have := take_prefixLen key nkey
    rwa [matched, List.take_length] at this
  refine (if_neg on).trans ((if_neg longer).trans ?_)
  show (delete resolveHash cachegen fuel nval (pref ++ key.take nkey.length) (key.drop nkey.length) >>= _) = _
  rw [common, below]
  cases dirty with
  | false => rfl
  | true => cases child <;> rfl

section Full

variable {children : Fin 17 → Node} {flags : NodeFlag} {i : Nibble} {rest : List Nibble} {nn : Node}

theorem delete_full_clean (below : delete resolveHash cachegen fuel (children i) (pref ++ [i]) rest = .ok (false, nn)) :
    delete resolveHash cachegen (fuel + 1) (.full children flags) pref (i :: rest) = .ok (false, .full children flags) := by
  show (delete resolveHash cachegen fuel (children i) (pref ++ [i]) rest >>= _) = _
  rw [below]
  rfl

/-- Two children or more stay: the full node stays. -/
theorem delete_full_many (below : delete resolveHash cachegen fuel (children i) (pref ++ [i]) rest = .ok (true, nn))
    (many : remainingPos (Function.update children i nn) (List.finRange 17) (-1) < 0) :
    delete resolveHash cachegen (fuel + 1) (.full children flags) pref (i :: rest) =
      .ok (true, .full (Function.update children i nn) (newFlag cachegen)) := by
  have kept : ¬ 0 ≤ remainingPos (Function.update children i nn) (List.finRange 17) (-1) := by omega
  show (delete resolveHash cachegen fuel (children i) (pref ++ [i]) rest >>= _) = _
  rw [below]
  exact if_neg kept

/-- One child below 16 stays: a short node of its index, merged with the child. -/
theorem delete_full_one (below : delete resolveHash cachegen fuel (children i) (pref ++ [i]) rest = .ok (true, nn))
    {j : Fin 17} (one : remainingPos (Function.update children i nn) (List.finRange 17) (-1) = j.val)
    (inner : j ≠ 16) (loaded : ∀ h, Function.update children i nn j ≠ .hash h) :
    delete resolveHash cachegen (fuel + 1) (.full children flags) pref (i :: rest) =
      .ok (true, merge (newFlag cachegen) [j] (Function.update children i nn j)) := by
  have index : (⟨(j.val : Int).toNat % 17, Nat.mod_lt _ (by decide)⟩ : Fin 17) = j := by
    ext
    simp [Nat.mod_eq_of_lt j.isLt]
  have notLast : (j.val : Int) ≠ 16 := fun same => inner (Fin.ext (by omega))
  have resolved : resolve resolveHash cachegen (Function.update children i nn j) pref =
      .ok (Function.update children i nn j) := by
    cases child : Function.update children i nn j with
    | hash h => exact absurd child (loaded h)
    | _ => rfl
  show (delete resolveHash cachegen fuel (children i) (pref ++ [i]) rest >>= _) = _
  rw [below]
  simp only [ok_bind, List.getD_cons_zero, one, index, notLast, Int.natCast_nonneg, if_true, ne_eq, not_false_eq_true, resolved]
  cases child : Function.update children i nn j <;> rfl

/-- Only the value at 16 stays: a short node of the terminator over it. -/
theorem delete_full_last (below : delete resolveHash cachegen fuel (children i) (pref ++ [i]) rest = .ok (true, nn))
    (last : remainingPos (Function.update children i nn) (List.finRange 17) (-1) = 16) :
    delete resolveHash cachegen (fuel + 1) (.full children flags) pref (i :: rest) =
      .ok (true, .short [16] (Function.update children i nn 16) (newFlag cachegen)) := by
  show (delete resolveHash cachegen fuel (children i) (pref ++ [i]) rest >>= _) = _
  rw [below]
  simp only [ok_bind, List.getD_cons_zero, last]
  rfl

end Full

/-! ## The branches of `tryGet` -/

theorem tryGet_empty (pos : Nat) : tryGet resolveHash cachegen (fuel + 1) .empty key pos = .ok (none, .empty, false) :=
  rfl

theorem tryGet_value (v : List UInt8) (pos : Nat) :
    tryGet resolveHash cachegen (fuel + 1) (.value v) key pos = .ok (some v, .value v, false) := rfl

theorem tryGet_short_off (nkey : List Nibble) (nval : Node) (flags : NodeFlag) (pos : Nat)
    (off : ¬ nkey <+: key.drop pos) :
    tryGet resolveHash cachegen (fuel + 1) (.short nkey nval flags) key pos = .ok (none, .short nkey nval flags, false) := by
  have missed : key.length - pos < nkey.length ∨ nkey ≠ (key.drop pos).take nkey.length := by
    rw [List.prefix_iff_eq_take] at off
    exact .inr off
  exact if_pos missed

theorem tryGet_short_on (nkey : List Nibble) (nval : Node) (flags : NodeFlag) (pos : Nat) {value : Option (List UInt8)}
    {nval' : Node} (on : nkey <+: key.drop pos)
    (below : tryGet resolveHash cachegen fuel nval key (pos + nkey.length) = .ok (value, nval', false)) :
    tryGet resolveHash cachegen (fuel + 1) (.short nkey nval flags) key pos = .ok (value, .short nkey nval flags, false) := by
  have found : ¬ (key.length - pos < nkey.length ∨ nkey ≠ (key.drop pos).take nkey.length) := by
    have within := on.length_le
    rw [List.length_drop] at within
    rw [List.prefix_iff_eq_take] at on
    rintro (shorter | differ)
    · omega
    · exact differ on
  refine (if_neg found).trans ?_
  show (tryGet resolveHash cachegen fuel nval key (pos + nkey.length) >>= _) = _
  rw [below]
  rfl

theorem tryGet_full (children : Fin 17 → Node) (flags : NodeFlag) (pos : Nat) {value : Option (List UInt8)}
    {nn : Node} (below : tryGet resolveHash cachegen fuel (children (key.getD pos 0)) key (pos + 1) = .ok (value, nn, false)) :
    tryGet resolveHash cachegen (fuel + 1) (.full children flags) key pos = .ok (value, .full children flags, false) := by
  show (tryGet resolveHash cachegen fuel (children (key.getD pos 0)) key (pos + 1) >>= _) = _
  rw [below]
  rfl

end Steps

/-! ## The specs, by induction on the fuel -/

section Specs

variable (resolveHash : List UInt8 → List Nibble → UInt16 → Except TrieError Node) (cachegen : UInt16)

/-- `insert` of a value into a well-formed node, under a terminated key and with more fuel
than the key has nibbles, succeeds, and its result is what `Inserted` says. -/
theorem insert_spec (v : List UInt8) (fuel : Nat) : ∀ (n : Node) (pref key : List Nibble),
    key.length < fuel → n.WF → Valid pref n → Terminated (pref ++ key) →
    ∃ dirty n', insert resolveHash cachegen fuel n pref key (.value v) = .ok (dirty, n') ∧
      Inserted n key v dirty n' := by
  induction fuel with
  | zero => exact fun _ _ _ enough => absurd enough (Nat.not_lt_zero _)
  | succ fuel ih =>
    intro n pref key enough wf valid term
    cases n with
    | empty => exact ⟨_, _, insert_empty resolveHash cachegen _, inserted_empty _⟩
    | hash h => exact absurd wf id
    | value v₀ =>
      cases key with
      | nil => exact ⟨_, _, insert_value_nil resolveHash cachegen v₀ v, inserted_value_nil v₀⟩
      | cons i rest =>
        -- a value ends every key through it
        have ended : Terminated pref := by simpa using valid [] v₀ rfl
        exact absurd (ended.eq_nil_of_append term) (List.cons_ne_nil i rest)
    | short nkey nval flags =>
      have nonempty : key ≠ [] := by
        rintro rfl
        rcases wf.eq_value_of_terminated valid (by simpa using term) with same | ⟨_, same⟩ <;> cases same
      by_cases matched : prefixLen key nkey = nkey.length
      · -- the whole short key matches: insert below it
        have split := eq_append_of_prefixLen matched
        have shorter : (key.drop nkey.length).length < fuel := by
          have := List.length_pos_of_ne_nil wf.1
          have := prefixLen_le_left key nkey
          simp only [List.length_drop]
          omega
        obtain ⟨dirty, nn, ran, below⟩ := ih nval (pref ++ nkey) (key.drop nkey.length) shorter wf.2.2.2
          valid.short (by rw [List.append_assoc, ← split]; exact term)
        rw [insert_short_match resolveHash cachegen nkey nval flags _ nonempty matched ran]
        refine ⟨_, _, rfl, ?_⟩
        rw [split]
        cases dirty with
        | true => exact below.short (newFlag cachegen) wf
        | false => exact below.short_clean wf
      · -- the keys part inside the short key: branch out there
        have inNkey : prefixLen key nkey < nkey.length := lt_of_le_of_ne (prefixLen_le_right key nkey) matched
        have inKey : prefixLen key nkey < key.length := by
          -- a key that ended inside the short key would be a prefix of a key the node holds
          by_contra outside
          have whole : prefixLen key nkey = key.length :=
            le_antisymm (prefixLen_le_left key nkey) (not_lt.mp outside)
          obtain ⟨rest, w, found⟩ := wf.2.2.2.exists_lookup wf.2.1
          have held := valid (nkey ++ rest) w (by rwa [lookup_short_append])
          have pre : pref ++ key <+: pref ++ (nkey ++ rest) := by
            rw [List.prefix_append_right_inj]
            have common := take_prefixLen key nkey
            rw [whole, List.take_length] at common
            rw [common]
            exact (List.take_prefix _ _).trans (List.prefix_append nkey rest)
          have lengths := congrArg List.length (term.eq_of_prefix held pre)
          simp only [List.length_append] at lengths
          omega
        obtain ⟨nkeyEq, keyEq, differ⟩ := split_at_prefixLen inNkey inKey
        obtain ⟨fuel, rfl⟩ : ∃ f, fuel = f + 1 := ⟨fuel - 1, by have := List.length_pos_of_ne_nil nonempty; omega⟩
        rw [insert_short_branch resolveHash cachegen nkey nval flags _ nonempty matched]
        refine ⟨_, _, rfl, ?_⟩
        have split := wf
        rw [nkeyEq] at split
        have branch := inserted_branch (v := v) (key.drop (prefixLen key nkey + 1)) differ (newFlag cachegen) split
        rwa [← nkeyEq, ← keyEq] at branch
    | full children flags =>
      cases key with
      | nil => rcases wf.eq_value_of_terminated valid (by simpa using term) with same | ⟨_, same⟩ <;> cases same
      | cons i rest =>
        obtain ⟨dirty, nn, ran, below⟩ := ih (children i) (pref ++ [i]) rest (by simpa using enough) (wf.2 i)
          (valid.full i) (by rw [List.append_assoc, List.singleton_append]; exact term)
        rw [insert_full resolveHash cachegen children flags _ i rest ran]
        cases dirty with
        | true => exact ⟨_, _, rfl, below.full (newFlag cachegen) wf⟩
        | false => exact ⟨_, _, rfl, below.full_clean wf⟩

/-- `delete` from a well-formed node, under a terminated key and with more fuel than the
key has nibbles, succeeds, and its result is what `Deleted` says. -/
theorem delete_spec (fuel : Nat) : ∀ (n : Node) (pref key : List Nibble),
    key.length < fuel → n.WF → Valid pref n → Terminated (pref ++ key) →
    ∃ dirty n', delete resolveHash cachegen fuel n pref key = .ok (dirty, n') ∧ Deleted n key dirty n' := by
  induction fuel with
  | zero => exact fun _ _ _ enough => absurd enough (Nat.not_lt_zero _)
  | succ fuel ih =>
    intro n pref key enough wf valid term
    cases n with
    | empty => exact ⟨_, _, delete_empty resolveHash cachegen, deleted_empty⟩
    | value v => exact ⟨_, _, delete_value resolveHash cachegen v, deleted_value valid term⟩
    | hash h => exact absurd wf id
    | short nkey nval flags =>
      by_cases off : prefixLen key nkey < nkey.length
      · -- the key leaves the short key: there is nothing to delete
        have outside : ¬ nkey <+: key := fun pre => by
          rw [prefixLen_whole pre] at off
          exact absurd off (lt_irrefl _)
        exact ⟨_, _, delete_short_off resolveHash cachegen nkey nval flags off,
          deleted_clean wf (lookup_short_outside nval flags outside)⟩
      have matched : prefixLen key nkey = nkey.length :=
        le_antisymm (prefixLen_le_right key nkey) (not_lt.mp off)
      have split := eq_append_of_prefixLen matched
      by_cases whole : prefixLen key nkey = key.length
      · -- the key is the short key: the node goes
        have same : key = nkey := by
          rw [split, List.drop_eq_nil_of_le (by omega), List.append_nil]
        rw [delete_short_whole resolveHash cachegen nkey nval flags off whole]
        subst same
        exact ⟨_, _, rfl, deleted_whole valid term⟩
      · have shorter : (key.drop nkey.length).length < fuel := by
          have := List.length_pos_of_ne_nil wf.1
          have := prefixLen_le_left key nkey
          simp only [List.length_drop]
          omega
        obtain ⟨dirty, child, ran, below⟩ := ih nval (pref ++ nkey) (key.drop nkey.length) shorter wf.2.2.2
          valid.short (by rw [List.append_assoc, ← split]; exact term)
        rw [delete_short_below resolveHash cachegen nkey nval flags off whole ran]
        cases dirty with
        | false =>
          refine ⟨_, _, rfl, ?_⟩
          rw [split]
          exact below.short_clean wf
        | true =>
          refine ⟨_, _, rfl, ?_⟩
          rw [split]
          -- below a short node is a full node, which keeps a key
          have full := wf
          obtain ⟨_, present, notShort, nwf⟩ := full
          cases nval with
          | full children cflags => exact below.short (newFlag cachegen) wf (below.isPresent_of_full nwf)
          | empty => cases present
          | short ckey cval cflags => simp [Node.isShort] at notShort
          | hash h => exact absurd nwf id
          | value w =>
            -- a value would end the key at the short node
            have ended : Terminated (pref ++ nkey) := by simpa using valid.short [] w rfl
            have nothing := ended.eq_nil_of_append (by rw [List.append_assoc, ← split]; exact term)
            have lengths : key.length = nkey.length := by
              rw [split, nothing, List.append_nil]
            exact absurd (matched.trans lengths.symm) whole
    | full children flags =>
      cases key with
      | nil => rcases wf.eq_value_of_terminated valid (by simpa using term) with same | ⟨_, same⟩ <;> cases same
      | cons i rest =>
        obtain ⟨dirty, nn, ran, below⟩ := ih (children i) (pref ++ [i]) rest (by simpa using enough) (wf.2 i)
          (valid.full i) (by rw [List.append_assoc, List.singleton_append]; exact term)
        cases dirty with
        | false => exact ⟨_, _, delete_full_clean resolveHash cachegen ran, below.full_clean wf⟩
        | true =>
          rcases remainingPos_cases (Function.update children i nn) with
            ⟨_, none⟩ | ⟨j, one, present, others⟩ | ⟨many, two⟩
          · -- a second child was there and stays
            obtain ⟨j, other, present⟩ := wf.1.other i
            have gone := none j
            rw [Function.update_of_ne other, present] at gone
            cases gone
          · by_cases last : j = 16
            · subst last
              exact ⟨_, _, delete_full_last resolveHash cachegen ran (by rw [one]; rfl),
                below.full_last (newFlag cachegen) wf valid term others present⟩
            · have loaded : ∀ h, Function.update children i nn j ≠ .hash h := fun h same => by
                have childWF := update_wf wf.2 i below.wf j
                rw [same] at childWF
                exact childWF
              exact ⟨_, _, delete_full_one resolveHash cachegen ran one last loaded,
                below.full_one (newFlag cachegen) wf others present⟩
          · exact ⟨_, _, delete_full_many resolveHash cachegen ran (by omega), below.full_many (newFlag cachegen) wf two⟩

/-- `tryGet` in a well-formed node, under a terminated key and with more fuel than the
rest of the key has nibbles, returns what the node holds there and loads nothing. -/
theorem tryGet_spec (fuel : Nat) : ∀ (n : Node) (pref key : List Nibble) (pos : Nat),
    (key.drop pos).length < fuel → n.WF → Valid pref n → Terminated (pref ++ key.drop pos) →
    tryGet resolveHash cachegen fuel n key pos = .ok (n.lookup (key.drop pos), n, false) := by
  induction fuel with
  | zero => exact fun _ _ _ _ enough => absurd enough (Nat.not_lt_zero _)
  | succ fuel ih =>
    intro n pref key pos enough wf valid term
    cases n with
    | empty => rw [tryGet_empty, lookup_empty]
    | hash h => exact absurd wf id
    | value v =>
      -- a value ends every key through it
      have ended : Terminated pref := by simpa using valid [] v rfl
      rw [tryGet_value, ended.eq_nil_of_append term]
      rfl
    | short nkey nval flags =>
      by_cases on : nkey <+: key.drop pos
      · obtain ⟨rest, split⟩ := on
        have restEq : key.drop (pos + nkey.length) = rest := by
          rw [← List.drop_drop, ← split, List.drop_left]
        have shorter : rest.length < fuel := by
          have lengths := congrArg List.length split
          have := List.length_pos_of_ne_nil wf.1
          simp only [List.length_append] at lengths
          omega
        have below := ih nval (pref ++ nkey) key (pos + nkey.length) (by rw [restEq]; exact shorter) wf.2.2.2
          valid.short (by rw [restEq, List.append_assoc, split]; exact term)
        rw [tryGet_short_on resolveHash cachegen nkey nval flags pos ⟨rest, split⟩ below, ← split,
          lookup_short_append, restEq]
      · rw [tryGet_short_off resolveHash cachegen nkey nval flags pos on, lookup_short_outside nval flags on]
    | full children flags =>
      -- the key goes on past a full node
      have inside : pos < key.length := by
        by_contra outside
        rw [List.drop_eq_nil_of_le (by omega), List.append_nil] at term
        rcases wf.eq_value_of_terminated valid term with same | ⟨_, same⟩ <;> cases same
      have split := List.drop_eq_getElem_cons inside
      have index : key.getD pos 0 = key[pos] := by
        rw [List.getD_eq_getElem?_getD, List.getElem?_eq_getElem inside]
        rfl
      have below := ih (children key[pos]) (pref ++ [key[pos]]) key (pos + 1)
        (by rw [split, List.length_cons] at enough; omega) (wf.2 _) (valid.full _)
        (by rw [List.append_assoc, List.singleton_append, ← split]; exact term)
      rw [tryGet_full resolveHash cachegen children flags pos (by rw [index]; exact below), split, lookup_full_cons]

end Specs

end TomoChain.Mpt
