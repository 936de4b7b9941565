import Mathlib

set_option autoImplicit false

/-! Inversion rules for computations in `Except`: a successful `bind` is a
successful first computation followed by a successful continuation. Proofs about
fallible code peel a `do` block apart with these instead of unfolding it. -/
namespace TomoChain.Lib

variable {ε α β : Type}

theorem bind_eq_ok {x : Except ε α} {f : α → Except ε β} {b : β}
    (success : x >>= f = .ok b) : ∃ a, x = .ok a ∧ f a = .ok b := by
  cases x with
  | error e => cases success
  | ok a => exact ⟨a, rfl, success⟩

@[simp] theorem ok_bind (a : α) (f : α → Except ε β) : (Except.ok a >>= f) = f a := rfl

@[simp] theorem error_bind (e : ε) (f : α → Except ε β) : (Except.error e >>= f) = .error e := rfl

@[simp] theorem pure_eq_ok (a : α) : (pure a : Except ε α) = .ok a := rfl

/-- A check that passes hands on to the rest of the block. -/
theorem guard_bind_ok {g : Except ε Unit} {f : Unit → Except ε β} {b : β}
    (success : g >>= f = .ok b) : f () = .ok b := by
  obtain ⟨⟨⟩, -, rest⟩ := bind_eq_ok success
  exact rest

theorem ok_injective {a a' : α} (same : (Except.ok a : Except ε α) = .ok a') : a = a' := by
  cases same
  rfl

theorem mapM_cons_eq_ok {f : α → Except ε β} {a : α} {l : List α} {bs : List β}
    (success : (a :: l).mapM f = .ok bs) :
    ∃ b rest, f a = .ok b ∧ l.mapM f = .ok rest ∧ bs = b :: rest := by
  rw [List.mapM_cons] at success
  obtain ⟨b, head, success⟩ := bind_eq_ok success
  obtain ⟨rest, tail, success⟩ := bind_eq_ok success
  exact ⟨b, rest, head, tail, (ok_injective success).symm⟩

theorem mapM_cons_of_ok {f : α → Except ε β} {a : α} {l : List α} {b : β} {rest : List β}
    (head : f a = .ok b) (tail : l.mapM f = .ok rest) : (a :: l).mapM f = .ok (b :: rest) := by
  rw [List.mapM_cons, head, ok_bind, tail, ok_bind]
  rfl

/-- A `mapM` that succeeds on a list succeeds on every permutation of it, with the
results permuted alike. The induction follows the permutation. -/
theorem mapM_perm_of_ok {f : α → Except ε β} {l l' : List α} {bs : List β}
    (perm : l.Perm l') (success : l.mapM f = .ok bs) :
    ∃ bs', l'.mapM f = .ok bs' ∧ bs.Perm bs' := by
  induction perm generalizing bs with
  | nil => exact ⟨bs, success, List.Perm.refl bs⟩
  | cons a _ ih =>
    obtain ⟨b, rest, head, tail, rfl⟩ := mapM_cons_eq_ok success
    obtain ⟨rest', tail', permuted⟩ := ih tail
    exact ⟨b :: rest', mapM_cons_of_ok head tail', permuted.cons b⟩
  | swap x y l =>
    obtain ⟨resultY, restY, headY, tailY, rfl⟩ := mapM_cons_eq_ok success
    obtain ⟨resultX, rest, headX, tail, rfl⟩ := mapM_cons_eq_ok tailY
    exact ⟨resultX :: resultY :: rest, mapM_cons_of_ok headX (mapM_cons_of_ok headY tail),
      List.Perm.swap resultX resultY rest⟩
  | trans _ _ first second =>
    obtain ⟨middle, success, permuted⟩ := first success
    obtain ⟨final, success, permuted'⟩ := second success
    exact ⟨final, success, permuted.trans permuted'⟩

end TomoChain.Lib
