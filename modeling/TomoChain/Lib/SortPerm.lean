import Mathlib

set_option autoImplicit false

/-! Sorting by a key into a linear order. Any sorting algorithm turns a list into
the one permutation of it that is ordered by the key when the key is injective, so
the result does not depend on the algorithm, and two lists sort to the same list
exactly when they are permutations of each other. -/
namespace TomoChain.Lib

variable {α β : Type} [LinearOrder β] (key : α → β)

/-- The list ordered by `key`, by insertion. -/
def sortByKey (l : List α) : List α :=
  l.insertionSort (fun a b => key a ≤ key b)

theorem sortByKey_perm (l : List α) : (sortByKey key l).Perm l :=
  List.perm_insertionSort _ l

theorem pairwise_sortByKey (l : List α) :
    (sortByKey key l).Pairwise (fun a b => key a ≤ key b) := by
  have total : Std.Total (fun a b : α => key a ≤ key b) := ⟨fun a b => le_total (key a) (key b)⟩
  have transitive : IsTrans α (fun a b => key a ≤ key b) := ⟨fun _ _ _ => le_trans⟩
  exact List.pairwise_insertionSort _ l

/-- With an injective key, two lists sort alike exactly when they are permutations
of each other. -/
theorem sortByKey_eq_iff_perm (injective : Function.Injective key) (l₁ l₂ : List α) :
    sortByKey key l₁ = sortByKey key l₂ ↔ l₁.Perm l₂ := by
  constructor
  · intro same
    have sorted₂ := sortByKey_perm key l₂
    rw [← same] at sorted₂
    exact (sortByKey_perm key l₁).symm.trans sorted₂
  · intro perm
    have across : (sortByKey key l₁).Perm (sortByKey key l₂) :=
      (sortByKey_perm key l₁).trans (perm.trans (sortByKey_perm key l₂).symm)
    refine List.Perm.eq_of_pairwise ?_ (pairwise_sortByKey key l₁) (pairwise_sortByKey key l₂) across
    intro a b _ _ below above
    exact injective (le_antisymm below above)

/-- The elements of a finite set ordered by an injective key. The order of a
multiset's list does not matter, as every order sorts alike; insertion keeps the
definition structural, so the result can be computed. -/
def sortFinset (injective : Function.Injective key) (s : Finset α) : List α :=
  Quot.liftOn s.val (sortByKey key) fun _ _ perm => (sortByKey_eq_iff_perm key injective _ _).mpr perm

end TomoChain.Lib
