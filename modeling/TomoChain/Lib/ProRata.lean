import Mathlib

set_option autoImplicit false

/-! Shares rounded down: `budget * w / total` for each weight `w`. When the weights add
up to at most `total`, the shares add up to at most the budget, whatever the rounding
loses; a payout that splits a budget this way pays out no more than it has. -/
namespace TomoChain.Lib

/-- The shares times the divisor are at most the budget times the weights. -/
theorem sum_mul_div_mul_le (budget total : Nat) (weights : List Nat) :
    (weights.map fun w => budget * w / total).sum * total ≤ budget * weights.sum := by
  induction weights with
  | nil => simp
  | cons w rest ih =>
    have share := Nat.div_mul_le_self (budget * w) total
    calc (List.map (fun w => budget * w / total) (w :: rest)).sum * total
        = budget * w / total * total + (rest.map fun w => budget * w / total).sum * total := by
          rw [List.map_cons, List.sum_cons, Nat.add_mul]
      _ ≤ budget * w + budget * rest.sum := Nat.add_le_add share ih
      _ = budget * (w :: rest).sum := by rw [List.sum_cons, Nat.mul_add]

/-- Shares of weights that add up to at most `total` add up to at most the budget. -/
theorem sum_mul_div_le (budget total : Nat) {weights : List Nat} (covered : weights.sum ≤ total) :
    (weights.map fun w => budget * w / total).sum ≤ budget := by
  rcases Nat.eq_zero_or_pos total with zero | pos
  · simp [zero]
  · have scaled := sum_mul_div_mul_le budget total weights
    have bound : budget * weights.sum ≤ budget * total := Nat.mul_le_mul_left budget covered
    exact Nat.le_of_mul_le_mul_right (Nat.le_trans scaled bound) pos

end TomoChain.Lib
