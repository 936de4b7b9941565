import Mathlib
import TomoChain.Trie.Update

set_option autoImplicit false

/-! The leftmost and rightmost walks of TomoX's best prices. On a well-formed node whose
keys all have one length, the walk that tries the children in a sorted order returns
the key that comes first in the lexicographic order of that order: the left walk the
least key, the right walk the greatest. The one length is what makes the right walk
safe: a value in the slot of the terminator would hold a shorter key than its sibling,
and the right walk, trying that slot first, would fail on it. -/
namespace TomoChain.Mpt

section Order

variable {children : Fin 17 → Node} {order : List (Fin 17)} {rel : Fin 17 → Fin 17 → Prop}

/-- The first present child in a sorted order comes before every other present child. -/
theorem firstPresent_first {i : Fin 17} (sorted : order.Pairwise rel)
    (first : firstPresent children order = some i) :
    (children i).isPresent ∧ ∀ j, j ∈ order → (children j).isPresent → j = i ∨ rel i j := by
  rw [firstPresent, List.find?_eq_some_iff_append] at first
  obtain ⟨present, before, after, split, skipped⟩ := first
  refine ⟨present, fun j listed presentJ => ?_⟩
  rw [split, List.mem_append, List.mem_cons] at listed
  rcases listed with early | rfl | late
  · have passed := skipped j early
    rw [presentJ] at passed
    cases passed
  · exact .inl rfl
  · rw [split, List.pairwise_append, List.pairwise_cons] at sorted
    exact .inr (sorted.2.1.1 j late)

theorem firstPresent_isSome (complete : ∀ i, i ∈ order) {j : Fin 17} (present : (children j).isPresent) :
    ∃ i, firstPresent children order = some i := by
  cases first : firstPresent children order with
  | some i => exact ⟨i, rfl⟩
  | none =>
    rw [firstPresent, List.find?_eq_none] at first
    exact absurd present (first j (complete j))

theorem leftOrder_complete : ∀ i, i ∈ leftOrder := List.mem_finRange

theorem rightOrder_complete : ∀ i, i ∈ rightOrder := fun i => List.mem_reverse.mpr (List.mem_finRange i)

theorem leftOrder_sorted : leftOrder.Pairwise (· < ·) := List.pairwise_lt_finRange 17

theorem rightOrder_sorted : rightOrder.Pairwise (fun i j => j < i) :=
  List.pairwise_reverse.mpr (List.pairwise_lt_finRange 17)

/-- Against a key of the same length, coming first in the reversed order is coming last. -/
theorem lt_of_lex_gt : ∀ {a b : List Nibble}, a.length = b.length → List.Lex (fun i j => j < i) a b → b < a
  | _, _, same, .nil => by simp at same
  | _, _, same, .cons lex => List.cons_lt_cons_iff.mpr (.inr ⟨rfl, lt_of_lex_gt (by simpa using same) lex⟩)
  | _, _, _, .rel less => List.cons_lt_cons_iff.mpr (.inl less)

end Order

section Walk

variable (resolveHash : List UInt8 → List Nibble → UInt16 → Except TrieError Node) (cachegen : UInt16)
  (order : List (Fin 17))
variable {fuel : Nat} {pref : List Nibble}

/-! ## The branches of the walk -/

theorem walk_empty :
    tryGetBestKeyAndValue resolveHash cachegen order (fuel + 1) .empty pref = .ok ([], none, .empty, false) :=
  rfl

theorem walk_short_value (nkey : List Nibble) (v : List UInt8) (flags : NodeFlag) :
    tryGetBestKeyAndValue resolveHash cachegen order (fuel + 1) (.short nkey (.value v) flags) pref =
      .ok (pref ++ nkey, some v, .short nkey (.value v) flags, false) :=
  rfl

theorem walk_short (nkey : List Nibble) (nval : Node) (flags : NodeFlag) (notValue : ∀ v, nval ≠ .value v)
    {key : List Nibble} {value : Option (List UInt8)} {nval' : Node}
    (below : tryGetBestKeyAndValue resolveHash cachegen order fuel nval (pref ++ nkey) = .ok (key, value, nval', false)) :
    tryGetBestKeyAndValue resolveHash cachegen order (fuel + 1) (.short nkey nval flags) pref =
      .ok (key, value, .short nkey nval flags, false) := by
  cases nval with
  | value v => exact absurd rfl (notValue v)
  | _ =>
    show (tryGetBestKeyAndValue resolveHash cachegen order fuel _ (pref ++ nkey) >>= _) = _
    rw [below]
    rfl

theorem walk_full (children : Fin 17 → Node) (flags : NodeFlag) {i : Fin 17}
    (first : firstPresent children order = some i) {key : List Nibble} {value : Option (List UInt8)} {nn : Node}
    (below : tryGetBestKeyAndValue resolveHash cachegen order fuel (children i) (pref ++ [i]) =
      .ok (key, value, nn, false)) :
    tryGetBestKeyAndValue resolveHash cachegen order (fuel + 1) (.full children flags) pref =
      .ok (key, value, .full children flags, false) := by
  simp only [tryGetBestKeyAndValue, first, below]
  rfl

/-- Under keys of one length no full node holds a value: a value sits in the slot of
the terminator and holds the one-nibble key, while a second child holds longer keys. -/
theorem not_value_of_uniform {children : Fin 17 → Node} {flags : NodeFlag} {len : Nat}
    (wf : (Node.full children flags).WF) (valid : Valid pref (.full children flags))
    (uniform : ∀ key v, (Node.full children flags).lookup key = some v → key.length = len) (i : Fin 17) :
    ∀ v, children i ≠ .value v := by
  intro v same
  have atEnd := (valid.full i) [] v (by rw [same]; rfl)
  rw [List.append_nil] at atEnd
  have one : len = 1 := by
    rw [← uniform [i] v (by rw [lookup_full_cons, same]; rfl)]
    rfl
  obtain ⟨k, other, presentK⟩ := wf.1.other i
  obtain ⟨rest, u, foundK⟩ := (wf.2 k).exists_lookup presentK
  have lengthK := uniform (k :: rest) u foundK
  rw [List.length_cons, one, Nat.add_eq_right, List.length_eq_zero_iff] at lengthK
  subst lengthK
  have atEndK := (valid.full k) [] u foundK
  rw [List.append_nil] at atEndK
  exact other (atEndK.eq_of_concat.trans atEnd.eq_of_concat.symm)

/-! ## The walk -/

variable {rel : Fin 17 → Fin 17 → Prop}

/-- The walk in a well-formed node that is no value and whose keys all have length
`len`, with more fuel than that: it returns a key the node holds, with its value, which
comes first among the node's keys in the lexicographic order of `rel`, the order the walk
tries the children in, and loads nothing. The induction is on the fuel; the key below
a short node is shorter by the short key, below a full node by one nibble. -/
theorem walk_spec (complete : ∀ i, i ∈ order) (sorted : order.Pairwise rel) (len fuel : Nat) :
    ∀ (n : Node) (pref : List Nibble), len < fuel → n.WF → Valid pref n → n.isPresent → (∀ v, n ≠ .value v) →
      (∀ key v, n.lookup key = some v → key.length = len) →
      ∃ key v, tryGetBestKeyAndValue resolveHash cachegen order fuel n pref = .ok (pref ++ key, some v, n, false) ∧
        n.lookup key = some v ∧ ∀ key' v', n.lookup key' = some v' → key' = key ∨ List.Lex rel key key' := by
  induction fuel generalizing len with
  | zero => exact fun _ _ enough => absurd enough (Nat.not_lt_zero _)
  | succ fuel ih =>
    intro n pref enough wf valid present notValue uniform
    cases n with
    | empty => cases present
    | hash h => exact absurd wf id
    | value v => exact absurd rfl (notValue v)
    | short nkey nval flags =>
      obtain ⟨nonempty, nvalPresent, notShort, nwf⟩ := wf
      cases nval with
      | value w =>
        -- the one key of the node
        refine ⟨nkey, w, walk_short_value .., by simpa [lookup_value] using lookup_short_append nkey (.value w) flags [], ?_⟩
        intro key' v' found
        obtain ⟨rest, rfl, below⟩ := lookup_short_eq_some found
        rw [lookup_value] at below
        split at below
        · next ended => exact .inl (by rw [ended, List.append_nil])
        · cases below
      | full children cflags =>
        have longer := List.length_pos_of_ne_nil nonempty
        have uniformBelow : ∀ key v, (Node.full children cflags).lookup key = some v →
            key.length = len - nkey.length := by
          intro key v found
          have whole := uniform (nkey ++ key) v (by rwa [lookup_short_append])
          rw [List.length_append] at whole
          omega
        obtain ⟨q, w, found⟩ := Node.WF.exists_lookup nwf rfl
        have whole := uniform (nkey ++ q) w (by rwa [lookup_short_append])
        rw [List.length_append] at whole
        obtain ⟨key, v, ran, holds, first⟩ := ih (len - nkey.length) (.full children cflags) (pref ++ nkey)
          (by omega) nwf valid.short rfl (fun _ same => nomatch same) uniformBelow
        refine ⟨nkey ++ key, v, ?_, by rwa [lookup_short_append], fun key' v' found' => ?_⟩
        · rw [walk_short resolveHash cachegen order nkey (.full children cflags) flags (fun _ same => nomatch same) ran,
            List.append_assoc]
        · obtain ⟨rest, rfl, below⟩ := lookup_short_eq_some found'
          rcases first rest v' below with same | earlier
          · exact .inl (by rw [same])
          · exact .inr (List.Lex.append_left _ earlier nkey)
      | empty => cases nvalPresent
      | short ckey cval cflags => simp [Node.isShort] at notShort
      | hash h => exact absurd nwf id
    | full children flags =>
      obtain ⟨a, _, _, presentA, _⟩ := wf.1
      obtain ⟨i, firstI⟩ := firstPresent_isSome complete presentA
      obtain ⟨presentI, before⟩ := firstPresent_first sorted firstI
      have uniformBelow : ∀ key v, (children i).lookup key = some v → key.length = len - 1 := by
        intro key v found
        have whole := uniform (i :: key) v found
        rw [List.length_cons] at whole
        omega
      obtain ⟨q, w, found⟩ := (wf.2 i).exists_lookup presentI
      have whole := uniform (i :: q) w found
      rw [List.length_cons] at whole
      obtain ⟨key, v, ran, holds, first⟩ := ih (len - 1) (children i) (pref ++ [i]) (by omega) (wf.2 i)
        (valid.full i) presentI (not_value_of_uniform wf valid uniform i) uniformBelow
      refine ⟨i :: key, v, ?_, holds, fun key' v' found' => ?_⟩
      · rw [walk_full resolveHash cachegen order children flags firstI ran, List.append_assoc, List.singleton_append]
      · cases key' with
        | nil => cases found'
        | cons j rest =>
          have below : (children j).lookup rest = some v' := found'
          rcases before j (complete j) (isPresent_of_lookup below) with same | after
          · subst same
            rcases first rest v' below with same | earlier
            · exact .inl (by rw [same])
            · exact .inr (.cons earlier)
          · exact .inr (.rel after)

end Walk

end TomoChain.Mpt
