import Mathlib

set_option autoImplicit false

/-! Floor arithmetic of a price with a fee on top: `q` units at `price` per `unit`
cost `q * price / unit`, and a fee of `rate / base` of that is added, each rounded
down; a budget covers `budget * unit * base / (base + rate) / price` units. All
divisors are positive, so `/` (`Int.ediv`) rounds down. The two facts that matter:
the covered quantity costs at most the budget, and it is at most any quantity the
budget does not cover. -/
namespace TomoChain.Lib

/-- The cost of `q` units with the fee on top. -/
def costWithFee (price unit rate base q : Int) : Int :=
  q * price / unit + q * price / unit * rate / base

/-- The quantity `budget` covers. -/
def coveredQuantity (budget price unit rate base : Int) : Int :=
  budget * unit * base / (base + rate) / price

section

variable {price unit rate base : Int}

theorem costWithFee_mono (pricePos : 0 ≤ price) (unitPos : 0 < unit) (ratePos : 0 ≤ rate) (basePos : 0 < base)
    {q q' : Int} (le : q ≤ q') : costWithFee price unit rate base q ≤ costWithFee price unit rate base q' := by
  have quote : q * price / unit ≤ q' * price / unit :=
    Int.ediv_le_ediv unitPos (Int.mul_le_mul_of_nonneg_right le pricePos)
  have fee : q * price / unit * rate / base ≤ q' * price / unit * rate / base :=
    Int.ediv_le_ediv basePos (Int.mul_le_mul_of_nonneg_right quote ratePos)
  unfold costWithFee
  omega

/-- Clearing the two floors: the cost is at most the exact price with the fee. -/
theorem costWithFee_mul_le (unitPos : 0 < unit) (ratePos : 0 ≤ rate) (basePos : 0 < base) (q : Int) :
    costWithFee price unit rate base q * (base * unit) ≤ q * price * (base + rate) := by
  set quote := q * price / unit
  have quoteFloor : quote * unit ≤ q * price := Int.ediv_mul_le _ (ne_of_gt unitPos)
  have feeFloor : quote * rate / base * base ≤ quote * rate := Int.ediv_mul_le _ (ne_of_gt basePos)
  -- the cost times `base` is at most `quote * (base + rate)`
  have scaled : costWithFee price unit rate base q * base ≤ quote * (base + rate) := by
    unfold costWithFee
    linarith
  calc costWithFee price unit rate base q * (base * unit)
      = costWithFee price unit rate base q * base * unit := by ring
    _ ≤ quote * (base + rate) * unit := Int.mul_le_mul_of_nonneg_right scaled (le_of_lt unitPos)
    _ = quote * unit * (base + rate) := by ring
    _ ≤ q * price * (base + rate) := Int.mul_le_mul_of_nonneg_right quoteFloor (by linarith)

/-- Clearing the two floors of the covered quantity. -/
theorem coveredQuantity_mul_le (pricePos : 0 < price) (ratePos : 0 ≤ rate) (basePos : 0 < base) (budget : Int) :
    coveredQuantity budget price unit rate base * price * (base + rate) ≤ budget * unit * base := by
  have sumPos : 0 < base + rate := by linarith
  set scaled := budget * unit * base / (base + rate)
  have outer : coveredQuantity budget price unit rate base * price ≤ scaled := Int.ediv_mul_le _ (ne_of_gt pricePos)
  have inner : scaled * (base + rate) ≤ budget * unit * base := Int.ediv_mul_le _ (ne_of_gt sumPos)
  calc coveredQuantity budget price unit rate base * price * (base + rate)
      ≤ scaled * (base + rate) := Int.mul_le_mul_of_nonneg_right outer (le_of_lt sumPos)
    _ ≤ budget * unit * base := inner

/-- The covered quantity costs at most the budget. -/
theorem costWithFee_coveredQuantity_le (pricePos : 0 < price) (unitPos : 0 < unit) (ratePos : 0 ≤ rate)
    (basePos : 0 < base) (budget : Int) :
    costWithFee price unit rate base (coveredQuantity budget price unit rate base) ≤ budget := by
  have cost : costWithFee price unit rate base (coveredQuantity budget price unit rate base) * (base * unit) ≤
      coveredQuantity budget price unit rate base * price * (base + rate) :=
    costWithFee_mul_le unitPos ratePos basePos _
  have covered : coveredQuantity budget price unit rate base * price * (base + rate) ≤ budget * unit * base :=
    coveredQuantity_mul_le pricePos ratePos basePos budget
  have scalePos : 0 < base * unit := Int.mul_pos basePos unitPos
  have both : costWithFee price unit rate base (coveredQuantity budget price unit rate base) * (base * unit) ≤
      budget * (base * unit) := by
    calc _ ≤ coveredQuantity budget price unit rate base * price * (base + rate) := cost
      _ ≤ budget * unit * base := covered
      _ = budget * (base * unit) := by ring
  exact le_of_mul_le_mul_right both scalePos

/-- A quantity the budget does not cover is at least the covered quantity. -/
theorem coveredQuantity_le_of_lt (pricePos : 0 < price) (unitPos : 0 < unit) (ratePos : 0 ≤ rate)
    (basePos : 0 < base) {budget q : Int} (short : budget < costWithFee price unit rate base q) :
    coveredQuantity budget price unit rate base ≤ q := by
  by_contra more
  have above : q + 1 ≤ coveredQuantity budget price unit rate base := by omega
  have sumPos : 0 < base + rate := by linarith
  have scalePos : 0 < base * unit := Int.mul_pos basePos unitPos
  have cost : costWithFee price unit rate base q * (base * unit) ≤ q * price * (base + rate) :=
    costWithFee_mul_le unitPos ratePos basePos q
  have covered : coveredQuantity budget price unit rate base * price * (base + rate) ≤ budget * unit * base :=
    coveredQuantity_mul_le pricePos ratePos basePos budget
  -- `q` units then cost strictly less than the budget
  have cheaper : costWithFee price unit rate base q * (base * unit) < budget * (base * unit) := by
    have step : q * price * (base + rate) < coveredQuantity budget price unit rate base * price * (base + rate) := by
      have factorPos : 0 < price * (base + rate) := Int.mul_pos pricePos sumPos
      have : q * (price * (base + rate)) < coveredQuantity budget price unit rate base * (price * (base + rate)) :=
        Int.mul_lt_mul_of_pos_right (by omega) factorPos
      linarith
    calc costWithFee price unit rate base q * (base * unit) ≤ q * price * (base + rate) := cost
      _ < coveredQuantity budget price unit rate base * price * (base + rate) := step
      _ ≤ budget * unit * base := covered
      _ = budget * (base * unit) := by ring
  have := lt_of_mul_lt_mul_right cheaper (le_of_lt scalePos)
  omega

theorem coveredQuantity_nonneg (pricePos : 0 < price) (unitPos : 0 ≤ unit) (ratePos : 0 ≤ rate) (basePos : 0 < base)
    {budget : Int} (funds : 0 ≤ budget) : 0 ≤ coveredQuantity budget price unit rate base := by
  have scaled : 0 ≤ budget * unit * base / (base + rate) :=
    Int.ediv_nonneg (Int.mul_nonneg (Int.mul_nonneg funds unitPos) (le_of_lt basePos)) (by linarith)
  exact Int.ediv_nonneg scaled (le_of_lt pricePos)

end

end TomoChain.Lib
