import Mathlib
import TomoChain.Lib.FloorFee
import TomoChain.Tomox.Settle

set_option autoImplicit false

/-! What `GetTradeQuantity` guarantees: the quantity it returns is one that both
parties can pay for as `GetSettleBalance` prices it, and a maker who can pay for
the whole quantity is never rejected.

`GetTradeQuantity` and `GetSettleBalance` compute the cost of a quantity in the
quote token with the floors of `Lib.costWithFee`, and the quantity a short balance
covers with those of `Lib.coveredQuantity`; each of its four cases per side is then
one of the library's facts. -/
namespace TomoChain.Tomox

open Lib

/-- The `OutTotal` of the taker and of the maker that `GetSettleBalance` computes for
quantity `q`: the side paying in the quote token pays the quote quantity and its fee,
the other side the quantity itself. -/
def settleOutTotals (takerSide : Side) (takerFeeRate makerPrice makerFeeRate baseTokenDecimal q : Int) : Int × Int :=
  if takerSide = .bid then (costWithFee makerPrice baseTokenDecimal takerFeeRate tomoXBaseFee q, q)
  else (q, costWithFee makerPrice baseTokenDecimal makerFeeRate tomoXBaseFee q)

/-- A successful `GetSettleBalance` has those totals. -/
theorem getSettleBalance_outTotals {quotePrice : Option Int} {takerSide : Side} {takerFeeRate : Int}
    {baseToken quoteToken : Address} {makerPrice makerFeeRate baseTokenDecimal quoteTokenDecimal q : Int}
    {settled : SettleBalance}
    (success : getSettleBalance quotePrice takerSide takerFeeRate baseToken quoteToken makerPrice makerFeeRate
      baseTokenDecimal quoteTokenDecimal q = .ok settled) :
    (settled.taker.outTotal, settled.maker.outTotal) =
      settleOutTotals takerSide takerFeeRate makerPrice makerFeeRate baseTokenDecimal q := by
  unfold getSettleBalance at success
  by_cases bid : takerSide = .bid
  · simp only [bid, if_true] at success
    split at success
    · cases success
    · split at success
      · cases success
      · cases success
        simp [settleOutTotals, bid, costWithFee]
  · simp only [bid, if_false] at success
    split at success
    · cases success
    · split at success
      · cases success
      · cases success
        simp [settleOutTotals, bid, costWithFee]

/-- What the balances allow of a result `(q, rejectMaker)` of `GetTradeQuantity`. -/
structure Affordable (takerSide : Side) (takerFeeRate takerBalance makerPrice makerFeeRate makerBalance
    baseTokenDecimal quantityToTrade : Int) (result : Int × Bool) : Prop where
  nonneg : 0 ≤ result.1
  le_quantity : result.1 ≤ quantityToTrade
  taker_pays : (settleOutTotals takerSide takerFeeRate makerPrice makerFeeRate baseTokenDecimal result.1).1 ≤
    takerBalance
  maker_pays : (settleOutTotals takerSide takerFeeRate makerPrice makerFeeRate baseTokenDecimal result.1).2 ≤
    makerBalance
  keeps_maker : (settleOutTotals takerSide takerFeeRate makerPrice makerFeeRate baseTokenDecimal
    quantityToTrade).2 ≤ makerBalance → result.2 = false

/-- `GetTradeQuantity` for a buying taker, its totals written with `costWithFee`. -/
theorem getTradeQuantity_bid (takerFeeRate takerBalance makerPrice makerFeeRate makerBalance baseTokenDecimal
    quantityToTrade : Int) :
    getTradeQuantity .bid takerFeeRate takerBalance makerPrice makerFeeRate makerBalance baseTokenDecimal
        quantityToTrade =
      let takerOutTotal := costWithFee makerPrice baseTokenDecimal takerFeeRate tomoXBaseFee quantityToTrade
      let covered := coveredQuantity takerBalance makerPrice baseTokenDecimal takerFeeRate tomoXBaseFee
      if takerBalance ≥ takerOutTotal ∧ makerBalance ≥ quantityToTrade then (quantityToTrade, false)
      else if takerBalance < takerOutTotal ∧ makerBalance ≥ quantityToTrade then (covered, false)
      else if takerBalance ≥ takerOutTotal ∧ makerBalance < quantityToTrade then (makerBalance, true)
      else if covered ≤ makerBalance then (covered, false) else (makerBalance, true) := rfl

/-- `GetTradeQuantity` for a selling taker. -/
theorem getTradeQuantity_ask (takerSide : Side) (notBid : takerSide ≠ .bid) (takerFeeRate takerBalance makerPrice
    makerFeeRate makerBalance baseTokenDecimal quantityToTrade : Int) :
    getTradeQuantity takerSide takerFeeRate takerBalance makerPrice makerFeeRate makerBalance baseTokenDecimal
        quantityToTrade =
      let makerOutTotal := costWithFee makerPrice baseTokenDecimal makerFeeRate tomoXBaseFee quantityToTrade
      let covered := coveredQuantity makerBalance makerPrice baseTokenDecimal makerFeeRate tomoXBaseFee
      if takerBalance ≥ quantityToTrade ∧ makerBalance ≥ makerOutTotal then (quantityToTrade, false)
      else if takerBalance < quantityToTrade ∧ makerBalance ≥ makerOutTotal then (takerBalance, false)
      else if takerBalance ≥ quantityToTrade ∧ makerBalance < makerOutTotal then (covered, true)
      else if covered ≤ takerBalance then (covered, true) else (takerBalance, false) := by
  simp only [getTradeQuantity, notBid, if_false]
  rfl

section

variable {takerFeeRate takerBalance makerPrice makerFeeRate makerBalance baseTokenDecimal quantityToTrade : Int}

theorem bid_affordable (pricePos : 0 < makerPrice) (decimalPos : 0 < baseTokenDecimal) (takerRate : 0 ≤ takerFeeRate)
    (takerFunds : 0 ≤ takerBalance) (makerFunds : 0 ≤ makerBalance) (positive : 0 < quantityToTrade) :
    Affordable .bid takerFeeRate takerBalance makerPrice makerFeeRate makerBalance baseTokenDecimal quantityToTrade
      (getTradeQuantity .bid takerFeeRate takerBalance makerPrice makerFeeRate makerBalance baseTokenDecimal
        quantityToTrade) := by
  have basePos : (0 : Int) < tomoXBaseFee := by decide
  rw [getTradeQuantity_bid]
  dsimp only
  -- the taker's cost and the quantity its balance covers
  set cost := costWithFee makerPrice baseTokenDecimal takerFeeRate tomoXBaseFee
  set covered := coveredQuantity takerBalance makerPrice baseTokenDecimal takerFeeRate tomoXBaseFee
  have mono : ∀ {q q'}, q ≤ q' → cost q ≤ cost q' :=
    costWithFee_mono (le_of_lt pricePos) decimalPos takerRate basePos
  have coveredPays : cost covered ≤ takerBalance :=
    costWithFee_coveredQuantity_le pricePos decimalPos takerRate basePos takerBalance
  have coveredNonneg : 0 ≤ covered :=
    coveredQuantity_nonneg pricePos (le_of_lt decimalPos) takerRate basePos takerFunds
  have totals : ∀ q, settleOutTotals .bid takerFeeRate makerPrice makerFeeRate baseTokenDecimal q = (cost q, q) :=
    fun _ => rfl
  split_ifs with full takerShort makerShort coveredFits
  · exact ⟨le_of_lt positive, le_refl _, by rw [totals]; exact full.1, by rw [totals]; exact full.2, fun _ => rfl⟩
  · have coveredLe : covered ≤ quantityToTrade :=
      coveredQuantity_le_of_lt pricePos decimalPos takerRate basePos takerShort.1
    exact ⟨coveredNonneg, coveredLe, by rw [totals]; exact coveredPays,
      by rw [totals]; exact le_trans coveredLe takerShort.2, fun _ => rfl⟩
  · refine ⟨makerFunds, le_of_lt makerShort.2, ?_, by rw [totals], ?_⟩
    · rw [totals]
      exact le_trans (mono (le_of_lt makerShort.2)) makerShort.1
    · intro makerCan
      rw [totals] at makerCan
      exact absurd makerCan (not_le.mpr makerShort.2)
  -- neither side can pay for the whole quantity
  · have takerCannot : takerBalance < cost quantityToTrade := by omega
    exact ⟨coveredNonneg, coveredQuantity_le_of_lt pricePos decimalPos takerRate basePos takerCannot,
      by rw [totals]; exact coveredPays, by rw [totals]; exact coveredFits, fun _ => rfl⟩
  · have makerCannot : makerBalance < quantityToTrade := by omega
    refine ⟨makerFunds, le_of_lt makerCannot, ?_, by rw [totals], ?_⟩
    · rw [totals]
      exact le_trans (mono (le_of_lt (lt_of_not_ge coveredFits))) coveredPays
    · intro makerCan
      rw [totals] at makerCan
      exact absurd makerCan (not_le.mpr makerCannot)

theorem ask_affordable {takerSide : Side} (notBid : takerSide ≠ .bid) (pricePos : 0 < makerPrice)
    (decimalPos : 0 < baseTokenDecimal) (makerRate : 0 ≤ makerFeeRate) (takerFunds : 0 ≤ takerBalance)
    (makerFunds : 0 ≤ makerBalance) (positive : 0 < quantityToTrade) :
    Affordable takerSide takerFeeRate takerBalance makerPrice makerFeeRate makerBalance baseTokenDecimal
      quantityToTrade
      (getTradeQuantity takerSide takerFeeRate takerBalance makerPrice makerFeeRate makerBalance baseTokenDecimal
        quantityToTrade) := by
  have basePos : (0 : Int) < tomoXBaseFee := by decide
  rw [getTradeQuantity_ask takerSide notBid]
  dsimp only
  -- the maker's cost and the quantity its balance covers
  set cost := costWithFee makerPrice baseTokenDecimal makerFeeRate tomoXBaseFee
  set covered := coveredQuantity makerBalance makerPrice baseTokenDecimal makerFeeRate tomoXBaseFee
  have mono : ∀ {q q'}, q ≤ q' → cost q ≤ cost q' :=
    costWithFee_mono (le_of_lt pricePos) decimalPos makerRate basePos
  have coveredPays : cost covered ≤ makerBalance :=
    costWithFee_coveredQuantity_le pricePos decimalPos makerRate basePos makerBalance
  have coveredNonneg : 0 ≤ covered :=
    coveredQuantity_nonneg pricePos (le_of_lt decimalPos) makerRate basePos makerFunds
  have totals : ∀ q, settleOutTotals takerSide takerFeeRate makerPrice makerFeeRate baseTokenDecimal q = (q, cost q) :=
    fun _ => if_neg notBid
  split_ifs with full takerShort makerShort coveredFits
  · exact ⟨le_of_lt positive, le_refl _, by rw [totals]; exact full.1, by rw [totals]; exact full.2, fun _ => rfl⟩
  · exact ⟨takerFunds, le_of_lt takerShort.1, by rw [totals],
      by rw [totals]; exact le_trans (mono (le_of_lt takerShort.1)) takerShort.2, fun _ => rfl⟩
  · have coveredLe : covered ≤ quantityToTrade :=
      coveredQuantity_le_of_lt pricePos decimalPos makerRate basePos makerShort.2
    refine ⟨coveredNonneg, coveredLe, by rw [totals]; exact le_trans coveredLe makerShort.1,
      by rw [totals]; exact coveredPays, ?_⟩
    intro makerCan
    rw [totals] at makerCan
    exact absurd makerCan (not_le.mpr makerShort.2)
  -- neither side can pay for the whole quantity
  · have makerCannot : makerBalance < cost quantityToTrade := by omega
    refine ⟨coveredNonneg, coveredQuantity_le_of_lt pricePos decimalPos makerRate basePos makerCannot,
      by rw [totals]; exact coveredFits, by rw [totals]; exact coveredPays, ?_⟩
    intro makerCan
    rw [totals] at makerCan
    exact absurd makerCan (not_le.mpr makerCannot)
  · have takerCannot : takerBalance < quantityToTrade := by omega
    exact ⟨takerFunds, le_of_lt takerCannot, by rw [totals],
      by rw [totals]; exact le_trans (mono (le_of_lt (lt_of_not_ge coveredFits))) coveredPays, fun _ => rfl⟩

end

/-- For every taker side, positive price and decimal, non-negative fee rates and
balances and a positive quantity, the quantity `GetTradeQuantity` returns is one both
parties can pay for, and a maker who can pay for the whole quantity is not rejected. -/
theorem getTradeQuantity_affordable (takerSide : Side) (takerFeeRate takerBalance makerPrice makerFeeRate makerBalance
    baseTokenDecimal quantityToTrade : Int) (pricePos : 0 < makerPrice) (decimalPos : 0 < baseTokenDecimal)
    (takerRate : 0 ≤ takerFeeRate) (makerRate : 0 ≤ makerFeeRate) (takerFunds : 0 ≤ takerBalance)
    (makerFunds : 0 ≤ makerBalance) (positive : 0 < quantityToTrade) :
    Affordable takerSide takerFeeRate takerBalance makerPrice makerFeeRate makerBalance baseTokenDecimal
      quantityToTrade
      (getTradeQuantity takerSide takerFeeRate takerBalance makerPrice makerFeeRate makerBalance baseTokenDecimal
        quantityToTrade) := by
  by_cases bid : takerSide = .bid
  · subst bid
    exact bid_affordable pricePos decimalPos takerRate takerFunds makerFunds positive
  · exact ask_affordable bid pricePos decimalPos makerRate takerFunds makerFunds positive

/-- A buying taker with 20 quote tokens for 10 units at price 3, fee rates of 1. -/
theorem getTradeQuantity_affordable_short_taker :
    0 < (3 : Int) ∧ 0 < (1 : Int) ∧ 0 ≤ (1 : Int) ∧ 0 ≤ (1 : Int) ∧ 0 ≤ (20 : Int) ∧ 0 ≤ (100 : Int) ∧ 0 < (10 : Int) ∧
      Affordable .bid 1 20 3 1 100 1 10 (getTradeQuantity .bid 1 20 3 1 100 1 10) :=
  ⟨by decide, by decide, by decide, by decide, by decide, by decide, by decide,
    getTradeQuantity_affordable .bid 1 20 3 1 100 1 10 (by decide) (by decide) (by decide) (by decide) (by decide)
      (by decide) (by decide)⟩

end TomoChain.Tomox
