import Mathlib

set_option autoImplicit false

/-! Sums of a finitely supported quantity over a whole finite type, as a mapping of
a contract is summed over all keys, and how one write changes them. -/
namespace TomoChain.Lib

open Finset

variable {α M : Type} [Fintype α] [DecidableEq α] [AddCommMonoid M]

/-- Writing `value` at `key` adds `value` and removes the old entry. -/
theorem sum_update_add (f : α → M) (key : α) (value : M) :
    (∑ x, Function.update f key value x) + f key = (∑ x, f x) + value := by
  rw [sum_update_of_mem (mem_univ key), sdiff_singleton_eq_erase, ← add_sum_erase univ f (mem_univ key)]
  rw [add_comm value, add_assoc, add_comm value, ← add_assoc, add_comm _ (f key)]

/-- The same for a quantity `g` read off each entry, as a member of a struct. -/
theorem sum_comp_update {β : Type} (g : β → M) (f : α → β) (key : α) (value : β) :
    (∑ x, g (Function.update f key value x)) + g (f key) = (∑ x, g (f x)) + g value := by
  have pointwise : (fun x => g (Function.update f key value x)) = Function.update (fun x => g (f x)) key (g value) :=
    funext fun x => Function.apply_update (fun _ => g) f key value x
  rw [pointwise]
  exact sum_update_add _ key (g value)

/-- A write that keeps the quantity of its entry keeps the sum. -/
theorem sum_comp_update_of_eq {β : Type} (g : β → M) (f : α → β) (key : α) (value : β)
    (kept : g value = g (f key)) : (∑ x, g (Function.update f key value x)) = ∑ x, g (f x) := by
  have pointwise : (fun x => g (Function.update f key value x)) = fun x => g (f x) := by
    funext x
    by_cases here : x = key
    · subst here
      simp [kept]
    · simp [here]
  rw [pointwise]

end TomoChain.Lib
