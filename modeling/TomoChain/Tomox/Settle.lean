import Mathlib
import TomoChain.Tomox.Accounts

set_option autoImplicit false

/-! The arithmetic of a match and its settlement (`GetTradeQuantity`,
`GetSettleBalance` and `SetteBalance` in `tomox/order_processor.go`).

Amounts are integers, as the `big.Int` values of the Go code, and `/` is the
Euclidean division of `big.Int.Div`. The divisors are checked decimals, the base
fee plus a fee rate, and a maker's price, which `ApplyOrder` keeps positive, so the
division-by-zero panic of `big.Int` does not arise. -/
namespace TomoChain.Tomox

open Lib

/-- `TradeResult`: what one side of a match receives and sends. -/
structure TradeResult where
  fee : Int
  inToken : Address
  inQuantity : Int
  inTotal : Int
  outToken : Address
  outQuantity : Int
  outTotal : Int
  deriving DecidableEq, Repr

/-- `SettleBalance`. -/
structure SettleBalance where
  taker : TradeResult
  maker : TradeResult
  deriving DecidableEq, Repr

/-- The quantity a taker whose balance does not cover the trade can afford,
`balance * decimal * baseFee / (baseFee + feeRate) / price`. -/
def affordableQuantity (balance baseTokenDecimal feeRate makerPrice : Int) : Int :=
  balance * baseTokenDecimal * tomoXBaseFee / (tomoXBaseFee + feeRate) / makerPrice

/-- `GetTradeQuantity`: the quantity that the balances allow, and whether the maker is
rejected for its balance. -/
def getTradeQuantity (takerSide : Side) (takerFeeRate takerBalance makerPrice makerFeeRate makerBalance
    baseTokenDecimal quantityToTrade : Int) : Int × Bool :=
  let quoteTokenQuantity := quantityToTrade * makerPrice / baseTokenDecimal
  if takerSide = .bid then
    let takerFee := quoteTokenQuantity * takerFeeRate / tomoXBaseFee
    let takerOutTotal := quoteTokenQuantity + takerFee
    let makerOutTotal := quantityToTrade
    if takerBalance ≥ takerOutTotal ∧ makerBalance ≥ makerOutTotal then (quantityToTrade, false)
    else if takerBalance < takerOutTotal ∧ makerBalance ≥ makerOutTotal then
      (affordableQuantity takerBalance baseTokenDecimal takerFeeRate makerPrice, false)
    else if takerBalance ≥ takerOutTotal ∧ makerBalance < makerOutTotal then (makerBalance, true)
    else
      let newQuantityTrade := affordableQuantity takerBalance baseTokenDecimal takerFeeRate makerPrice
      if newQuantityTrade ≤ makerBalance then (newQuantityTrade, false) else (makerBalance, true)
  else
    let makerFee := quoteTokenQuantity * makerFeeRate / tomoXBaseFee
    let takerOutTotal := quantityToTrade
    let makerOutTotal := quoteTokenQuantity + makerFee
    if takerBalance ≥ takerOutTotal ∧ makerBalance ≥ makerOutTotal then (quantityToTrade, false)
    else if takerBalance < takerOutTotal ∧ makerBalance ≥ makerOutTotal then (takerBalance, false)
    else if takerBalance ≥ takerOutTotal ∧ makerBalance < makerOutTotal then
      (affordableQuantity makerBalance baseTokenDecimal makerFeeRate makerPrice, true)
    else
      let newQuantityTrade := affordableQuantity makerBalance baseTokenDecimal makerFeeRate makerPrice
      if newQuantityTrade ≤ takerBalance then (newQuantityTrade, true) else (takerBalance, false)

/-- The check both branches of `GetSettleBalance` make with a known quote price: each
fee, valued in the native coin, exceeds `RelayerFee`. -/
def receivedFeesCover (quotePrice : Option Int) (makerFee takerFee quoteTokenDecimal : Int) : Bool :=
  match quotePrice with
  | some quotePrice =>
    if quotePrice > 0 then
      decide (makerFee * quotePrice / quoteTokenDecimal > relayerFee) &&
        decide (takerFee * quotePrice / quoteTokenDecimal > relayerFee)
    else true
  | none => true

/-- `GetSettleBalance`: the amounts each side receives and sends, the taker paying its
fee on top and the maker having it taken from what it receives. -/
def getSettleBalance (quotePrice : Option Int) (takerSide : Side) (takerFeeRate : Int)
    (baseToken quoteToken : Address) (makerPrice makerFeeRate baseTokenDecimal quoteTokenDecimal
    quantityToTrade : Int) : Except TomoxError SettleBalance :=
  let quoteTokenQuantity := quantityToTrade * makerPrice / baseTokenDecimal
  let takerFee := quoteTokenQuantity * takerFeeRate / tomoXBaseFee
  let makerFee := quoteTokenQuantity * makerFeeRate / tomoXBaseFee
  if takerSide = .bid then
    if quoteTokenQuantity ≤ makerFee then .error .quantityTradeTooSmall
    else if !receivedFeesCover quotePrice makerFee takerFee quoteTokenDecimal then .error .quantityTradeTooSmall
    else .ok
      { taker := ⟨takerFee, baseToken, quantityToTrade, quantityToTrade, quoteToken, quoteTokenQuantity,
          quoteTokenQuantity + takerFee⟩
        maker := ⟨makerFee, quoteToken, quoteTokenQuantity, quoteTokenQuantity - makerFee, baseToken,
          quantityToTrade, quantityToTrade⟩ }
  else
    if quoteTokenQuantity ≤ takerFee then .error .quantityTradeTooSmall
    else if !receivedFeesCover quotePrice makerFee takerFee quoteTokenDecimal then .error .quantityTradeTooSmall
    else .ok
      { taker := ⟨takerFee, quoteToken, quoteTokenQuantity, quoteTokenQuantity - takerFee, baseToken,
          quantityToTrade, quantityToTrade⟩
        maker := ⟨makerFee, baseToken, quantityToTrade, quantityToTrade, quoteToken, quoteTokenQuantity,
          quoteTokenQuantity + makerFee⟩ }

/-- `if mapBalances[token] == nil { mapBalances[token] = {addr: value} }`: a balance is
remembered only for the first holder of its token. -/
def rememberFirst (cache : BalanceCache) (token addr : Address) (value : Int) : BalanceCache :=
  match cache.get? token with
  | some _ => cache
  | none => cache.insert token (SortedMap.empty.insert addr value)

/-- `SetteBalance`: every new balance computed and checked first, against the state and
the cache, then the deposits debited, the masternode owner paid `2 * RelayerFee`, and
the balances written in order, so that a later write to one balance wins. -/
def setteBalance (coinbase : Address) (takerOrder makerOrder : OrderItem) (settleBalance : SettleBalance)
    (state : AccountState) : Except TomoxError AccountState := do
  let takerExOwner := getRelayerOwner takerOrder.exchangeAddress state
  let makerExOwner := getRelayerOwner makerOrder.exchangeAddress state
  let matchingFee := relayerFee + relayerFee
  if takerExOwner = 0 ∨ makerExOwner = 0 then throw (.exchangeOwnerEmpty takerExOwner makerExOwner)
  let taker := settleBalance.taker
  let maker := settleBalance.maker
  let quoteToken := makerOrder.quoteToken
  let cache : BalanceCache := .empty
  let newTakerInTotal ← checkAddTokenBalance takerOrder.userAddress taker.inTotal taker.inToken state cache
  let cache := rememberFirst cache taker.inToken takerOrder.userAddress newTakerInTotal
  let newTakerOutTotal ← checkSubTokenBalance takerOrder.userAddress taker.outTotal taker.outToken state cache
  let cache := rememberFirst cache taker.outToken takerOrder.userAddress newTakerOutTotal
  let newMakerInTotal ← checkAddTokenBalance makerOrder.userAddress maker.inTotal maker.inToken state cache
  let cache := rememberFirst cache maker.inToken makerOrder.userAddress newMakerInTotal
  let newMakerOutTotal ← checkSubTokenBalance makerOrder.userAddress maker.outTotal maker.outToken state cache
  let cache := rememberFirst cache maker.outToken makerOrder.userAddress newMakerOutTotal
  let newTakerFee ← checkAddTokenBalance takerExOwner taker.fee quoteToken state cache
  let cache := rememberFirst cache quoteToken takerExOwner newTakerFee
  let newMakerFee ← checkAddTokenBalance makerExOwner maker.fee quoteToken state cache
  let relayerCache : SortedMap Address Int := .empty
  let newRelayerTakerFee ← checkSubRelayerFee takerOrder.exchangeAddress relayerFee state relayerCache
  let relayerCache := relayerCache.insert takerOrder.exchangeAddress newRelayerTakerFee
  let newRelayerMakerFee ← checkSubRelayerFee makerOrder.exchangeAddress relayerFee state relayerCache
  let state := setSubRelayerFee takerOrder.exchangeAddress newRelayerTakerFee relayerFee state
  let state := setSubRelayerFee makerOrder.exchangeAddress newRelayerMakerFee relayerFee state
  let state := state.addBalance (state.candidateOwner coinbase) matchingFee
  let state := setTokenBalance takerOrder.userAddress newTakerInTotal taker.inToken state
  let state := setTokenBalance takerOrder.userAddress newTakerOutTotal taker.outToken state
  let state := setTokenBalance makerOrder.userAddress newMakerInTotal maker.inToken state
  let state := setTokenBalance makerOrder.userAddress newMakerOutTotal maker.outToken state
  let state := setTokenBalance takerExOwner newTakerFee quoteToken state
  return setTokenBalance makerExOwner newMakerFee quoteToken state

end TomoChain.Tomox
