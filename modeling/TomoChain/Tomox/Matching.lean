import Mathlib
import TomoChain.Tomox.Settle
import TomoChain.Tomox.State.Journal

set_option autoImplicit false

/-! The matching engine (`tomox/order_processor.go`): `ApplyOrder` and the loops under
it, and `CommitOrder`, which runs it inside a snapshot of the TomoX state.

The engine works on two states at once, the account state it settles on and the
TomoX state of the order books (`Ledger`). `CommitOrder` snapshots and reverts only
the second. The loops over price levels and over the orders of a level run on
`fuel`; trade records leave out the wall-clock timestamp, and a rejected order is
recorded with its value when it is rejected. -/
namespace TomoChain.Tomox

open Lib

/-- The state the engine changes. -/
structure Ledger where
  accounts : AccountState
  tomox : TomoXStateDB

/-- A method of the matching engine. -/
abbrev EngineOp := StateM Ledger

/-- A call on the TomoX state. -/
def onTomox {α : Type} (op : StateOp α) : EngineOp α := fun l =>
  let result := op l.tomox
  (result.1, { l with tomox := result.2 })

/-- `Address.Hash()`: the address as a 32-byte word. -/
def addressHash (a : Address) : Hash := Fin.ofNat _ a.val

/-- `GetOrderBookHash`: the first 16 bytes of the base token and the last 16 of the quote token. -/
def getOrderBookHash (baseToken quoteToken : Address) : Hash :=
  Fin.ofNat _ (baseToken.val / 2 ^ 32 * 2 ^ 128 + quoteToken.val % 2 ^ 128)

/-- A trade record of `processOrderList`. -/
structure Trade where
  takerOrderHash : Hash
  makerOrderHash : Hash
  quantity : Int
  makerExchange : Address
  maker : Address
  baseToken : Address
  quoteToken : Address
  price : Nat
  deriving DecidableEq, Repr

/-- The TomoX service as the engine uses it: the decimals of a TRC21 token, which
`GetTokenDecimal` reads over IPC from the token contract. -/
structure TomoX where
  tokenDecimals : Address → Except TomoxError Nat

/-- What `getTradeQuantity` returns: a quantity, whether the maker is rejected, and an error. -/
structure TradeOutcome where
  quantity : Int
  rejectMaker : Bool
  err : Option TomoxError
  deriving DecidableEq, Repr

namespace TomoX

/-- `GetTokenDecimal`: `BasePrice` for the native coin, else `10 ^ decimals`. -/
def getTokenDecimal (tomox : TomoX) (token : Address) : Except TomoxError Nat :=
  if token = tomoNativeAddress then .ok basePrice else (tomox.tokenDecimals token).map (10 ^ ·)

/-- The relayer checks of `getTradeQuantity`: an outcome when a deposit does not cover
the relayer fees, which rejects the taker (or the maker, for the maker's relayer). -/
def relayerFeeShortfall (takerOrder makerOrder : OrderItem) (state : AccountState) : Option TradeOutcome :=
  if takerOrder.exchangeAddress = makerOrder.exchangeAddress then
    match checkRelayerFee takerOrder.exchangeAddress (relayerFee * 2) state with
    | .error _ => some ⟨0, false, none⟩
    | .ok () => none
  else
    match checkRelayerFee takerOrder.exchangeAddress relayerFee state with
    | .error _ => some ⟨0, false, none⟩
    | .ok () =>
      match checkRelayerFee makerOrder.exchangeAddress relayerFee state with
      | .error _ => some ⟨0, true, none⟩
      | .ok () => none

/-- The balances `getTradeQuantity` compares: what the taker and the maker give away. -/
def tradeBalances (takerOrder makerOrder : OrderItem) (state : AccountState) : Int × Int :=
  match takerOrder.side with
  | .bid => (getTokenBalance takerOrder.userAddress makerOrder.quoteToken state,
      getTokenBalance makerOrder.userAddress makerOrder.baseToken state)
  | .ask => (getTokenBalance takerOrder.userAddress makerOrder.baseToken state,
      getTokenBalance makerOrder.userAddress makerOrder.quoteToken state)
  | .unknown => (0, 0)

/-- `getTradeQuantity`: the quantity to trade against one maker, settled on the account
state when it is positive and the settlement passes. -/
def getTradeQuantity (tomox : TomoX) (quotePrice : Option Int) (coinbase : Address)
    (state : AccountState) (takerOrder makerOrder : OrderItem) (quantityToTrade : Int) :
    TradeOutcome × AccountState :=
  match tomox.getTokenDecimal makerOrder.baseToken with
  | .error _ => (⟨0, false, some (.tokenDecimal makerOrder.baseToken)⟩, state)
  | .ok baseTokenDecimal =>
    if baseTokenDecimal = 0 then (⟨0, false, some (.tokenDecimal makerOrder.baseToken)⟩, state) else
    match tomox.getTokenDecimal makerOrder.quoteToken with
    | .error _ => (⟨0, false, some (.tokenDecimal makerOrder.quoteToken)⟩, state)
    | .ok quoteTokenDecimal =>
      if quoteTokenDecimal = 0 then (⟨0, false, some (.tokenDecimal makerOrder.quoteToken)⟩, state) else
      let quotePrice := if makerOrder.quoteToken = tomoNativeAddress then some (quoteTokenDecimal : Int)
        else quotePrice
      match relayerFeeShortfall takerOrder makerOrder state with
      | some outcome => (outcome, state)
      | none =>
        let takerFeeRate := getExRelayerFee takerOrder.exchangeAddress state
        let makerFeeRate := getExRelayerFee makerOrder.exchangeAddress state
        let balances := tradeBalances takerOrder makerOrder state
        let traded := Tomox.getTradeQuantity takerOrder.side takerFeeRate balances.1 makerOrder.price
          makerFeeRate balances.2 baseTokenDecimal quantityToTrade
        if traded.1 > 0 then
          match getSettleBalance quotePrice takerOrder.side takerFeeRate makerOrder.baseToken
              makerOrder.quoteToken makerOrder.price makerFeeRate baseTokenDecimal quoteTokenDecimal traded.1 with
          | .error e => (⟨traded.1, traded.2, some e⟩, state)
          | .ok settleBalance =>
            match setteBalance coinbase takerOrder makerOrder settleBalance state with
            | .error e => (⟨traded.1, traded.2, some e⟩, state)
            | .ok state => (⟨traded.1, traded.2, none⟩, state)
        else (⟨traded.1, traded.2, none⟩, state)

/-- What a matching loop returns: the quantity left, the trades and the rejected orders. -/
abbrev Matched := Except TomoxError (Int × List Trade × List OrderItem)

/-- `processOrderList`: the taker traded against the orders of one level, oldest first,
until it is filled, rejected, or the level is empty. -/
def processOrderList (tomox : TomoX) (coinbase : Address) (side : Side) (orderBook : Hash) (price : Nat)
    (order : OrderItem) : Nat → Int → List Trade → List OrderItem → EngineOp Matched
  | 0, _, _, _ => return .error .outOfFuel
  | fuel + 1, quantityToTrade, trades, rejects => do
    if quantityToTrade ≤ 0 then return .ok (quantityToTrade, trades, rejects)
    let best ← onTomox (getBestOrderIdAndAmount orderBook price side)
    -- the error of `GetBestOrderIdAndAmount` is dropped: its values are then zero
    let best : Hash × Nat := match best with
      | .ok best => best
      | .error _ => (0, 0)
    let orderId := best.1
    let amount : Int := best.2
    if amount = 0 then return .ok (quantityToTrade, trades, rejects)
    let oldestOrder ← onTomox (getOrder orderBook orderId)
    let maxTradedQuantity := min quantityToTrade amount
    let quotePrice ← if oldestOrder.quoteToken ≠ tomoNativeAddress then
        onTomox (do return (← getPrice (getOrderBookHash oldestOrder.quoteToken tomoNativeAddress)).map Int.ofNat)
      else pure none
    let outcome ← fun (l : Ledger) =>
      let traded := tomox.getTradeQuantity quotePrice coinbase l.accounts order oldestOrder maxTradedQuantity
      (traded.1, { l with accounts := traded.2 })
    let tradedQuantity := outcome.quantity
    let rejectMaker := outcome.rejectMaker
    let continueAfterCancel := fun (rejects : List OrderItem) => do
      match ← onTomox (cancelOrder orderBook oldestOrder) with
      | .error e => return .error e
      | .ok () => processOrderList tomox coinbase side orderBook price order fuel quantityToTrade trades rejects
    match outcome.err with
    | some .quantityTradeTooSmall =>
      if tradedQuantity = maxTradedQuantity then
        if quantityToTrade = amount then
          match ← onTomox (cancelOrder orderBook oldestOrder) with
          | .error e => return .error e
          | .ok () => return .ok (0, trades, rejects ++ [order, oldestOrder])
        else if quantityToTrade < amount then return .ok (0, trades, rejects ++ [order])
        else continueAfterCancel (rejects ++ [oldestOrder])
      else if rejectMaker then continueAfterCancel (rejects ++ [oldestOrder])
      else return .ok (0, trades, rejects ++ [order])
    | some e => return .error e
    | none =>
      if tradedQuantity = 0 ∧ !rejectMaker then return .ok (0, trades, rejects ++ [order])
      let traded ← if tradedQuantity > 0 then do
          -- the error of `SubAmountOrderItem` is dropped
          let _ ← onTomox (subAmountOrderItem orderBook orderId price tradedQuantity.toNat side)
          if oldestOrder.quoteToken = tomoNativeAddress then onTomox (setPrice orderBook (some price))
          pure (quantityToTrade - tradedQuantity, trades ++ [⟨order.hash, oldestOrder.hash, tradedQuantity,
            oldestOrder.exchangeAddress, oldestOrder.userAddress, oldestOrder.baseToken, oldestOrder.quoteToken,
            oldestOrder.price⟩])
        else pure (quantityToTrade, trades)
      let next := processOrderList tomox coinbase side orderBook price order fuel traded.1 traded.2
      if rejectMaker then
        match ← onTomox (cancelOrder orderBook oldestOrder) with
        | .error e => return .error e
        | .ok () => next (rejects ++ [oldestOrder])
      else next rejects

/-- The best opposite price for a taker: the best ask for a bid, else the best bid. -/
def bestOpposite (side : Side) (orderBook : Hash) : EngineOp Nat := do
  if side = .bid then return (← onTomox (getBestAskPrice orderBook)).1
  else return (← onTomox (getBestBidPrice orderBook)).1

/-- The side of the levels a taker trades against. -/
def opposite (side : Side) : Side := if side = .bid then .ask else .bid

/-- The price-level loop of `processLimitOrder`: while the taker has quantity left and
the best opposite price is within its limit. -/
def limitLoop (tomox : TomoX) (coinbase : Address) (orderBook : Hash) (order : OrderItem) :
    Nat → Int → List Trade → List OrderItem → EngineOp Matched
  | 0, _, _, _ => return .error .outOfFuel
  | fuel + 1, quantityToTrade, trades, rejects => do
    let best ← bestOpposite order.side orderBook
    let withinLimit := if order.side = .bid then order.price ≥ best else order.price ≤ best
    if quantityToTrade > 0 ∧ withinLimit ∧ best > 0 then
      match ← tomox.processOrderList coinbase (opposite order.side) orderBook best order fuel
          quantityToTrade [] [] with
      | .error e => return .error e
      | .ok (left, newTrades, newRejects) =>
        limitLoop tomox coinbase orderBook order fuel left (trades ++ newTrades) (rejects ++ newRejects)
    else return .ok (quantityToTrade, trades, rejects)

/-- `processLimitOrder`: the matching loop, then what is left of the order inserted
under the order book's next order id. The order is returned with that id and quantity. -/
def processLimitOrder (tomox : TomoX) (coinbase : Address) (orderBook : Hash) (order : OrderItem)
    (fuel : Nat) : EngineOp (Except TomoxError (List Trade × List OrderItem × OrderItem)) := do
  match ← tomox.limitLoop coinbase orderBook order fuel order.quantity [] [] with
  | .error e => return .error e
  | .ok (quantityToTrade, trades, rejects) =>
    if quantityToTrade > 0 then
      let orderId ← onTomox (getNonce orderBook)
      let order := { order with orderID := orderId + 1, quantity := quantityToTrade.toNat }
      onTomox (setNonce orderBook (orderId + 1))
      onTomox (insertOrderItem orderBook (bigToHash order.orderID) order)
      return .ok (trades, rejects, order)
    else return .ok (trades, rejects, order)

/-- The price-level loop of `processMarketOrder`: no limit; it keeps only the rejects
of the last level, as `processMarketOrder` returns `newRejects`. -/
def marketLoop (tomox : TomoX) (coinbase : Address) (orderBook : Hash) (order : OrderItem) :
    Nat → Int → List Trade → List OrderItem → EngineOp Matched
  | 0, _, _, _ => return .error .outOfFuel
  | fuel + 1, quantityToTrade, trades, lastRejects => do
    let best ← bestOpposite order.side orderBook
    if quantityToTrade > 0 ∧ best > 0 then
      match ← tomox.processOrderList coinbase (opposite order.side) orderBook best order fuel
          quantityToTrade [] [] with
      | .error e => return .error e
      | .ok (left, newTrades, newRejects) =>
        marketLoop tomox coinbase orderBook order fuel left (trades ++ newTrades) newRejects
    else return .ok (quantityToTrade, trades, lastRejects)

/-- `processMarketOrder`. -/
def processMarketOrder (tomox : TomoX) (coinbase : Address) (orderBook : Hash) (order : OrderItem)
    (fuel : Nat) : EngineOp (Except TomoxError (List Trade × List OrderItem × OrderItem)) := do
  match ← tomox.marketLoop coinbase orderBook order fuel order.quantity [] [] with
  | .error e => return .error e
  | .ok (_, trades, rejects) => return .ok (trades, rejects, order)

/-- `ApplyOrder`: the nonce checks, the rejection of an invalid price or quantity, a
cancellation, or the matching of a market or limit order; the user's nonce is then
raised. It returns the trades, the rejects and the order as the engine changed it. -/
def applyOrder (tomox : TomoX) (coinbase : Address) (orderBook : Hash) (order : OrderItem) (fuel : Nat) :
    EngineOp (Except TomoxError (List Trade × List OrderItem × OrderItem)) := do
  let user := addressHash order.userAddress
  let nonce ← onTomox (getNonce user)
  if nonce < order.nonce then return .error .nonceTooHigh
  if nonce > order.nonce then return .error .nonceTooLow
  if order.price = 0 ∨ (bigToHash order.price).val ≠ order.price then
    onTomox (setNonce user (nonce + 1))
    return .ok ([], [order], order)
  if order.quantity = 0 ∨ (bigToHash order.quantity).val ≠ order.quantity then
    onTomox (setNonce user (nonce + 1))
    return .ok ([], [order], order)
  if order.status = .cancelled then
    match ← onTomox (cancelOrder orderBook order) with
    | .error e => return .error e
    | .ok () =>
      onTomox (setNonce user (nonce + 1))
      return .ok ([], [], order)
  let processed ← if order.type = .market then tomox.processMarketOrder coinbase orderBook order fuel
    else tomox.processLimitOrder coinbase orderBook order fuel
  match processed with
  | .error e => return .error e
  | .ok result =>
    onTomox (setNonce user (nonce + 1))
    return .ok result

/-- `CommitOrder`: `ApplyOrder` in a snapshot of the TomoX state, reverted on an error.
The account state is not part of the snapshot. -/
def commitOrder (tomox : TomoX) (coinbase : Address) (orderBook : Hash) (order : OrderItem) (fuel : Nat) :
    EngineOp (Except TomoxError (List Trade × List OrderItem × OrderItem)) := do
  let snap ← onTomox snapshot
  match ← tomox.applyOrder coinbase orderBook order fuel with
  | .error e =>
    -- a panic of the revert (an undo through a missing object) is not modelled here
    let _ ← onTomox (revertToSnapshot snap)
    return .error e
  | .ok result => return .ok result

end TomoX

/-! ## A book with one relayer

Two TRC21 tokens without decimals and one relayer, `0x31`, without fees and owned by
`0x41`, as `register` of the relayer contract leaves it. The makers `0x72` and `0x73`
hold 100 base tokens each, `0x74` holds none, and the taker `0x71` holds 1000 quote
tokens. -/

namespace OneRelayer

def baseToken : Address := 0x10

def quoteToken : Address := 0x20

def taker : Address := 0x71

def firstMaker : Address := 0x72

def secondMaker : Address := 0x73

def poorMaker : Address := 0x74

def relayer : Address := 0x31

def coinbase : Address := 0x51

def accounts : AccountState where
  balance := fun _ => 0
  exist := fun token => decide (token = baseToken) || decide (token = quoteToken)
  tokenBalances := fun token holder =>
    if token = baseToken ∧ (holder = firstMaker ∨ holder = secondMaker) then 100
    else if token = quoteToken ∧ holder = taker then 1000 else 0
  relayerDeposit := fun registered => if registered = relayer then bigToHash (10 ^ 16) else 0
  relayerTradeFee := fun _ => 0
  relayerOwner := fun registered => if registered = relayer then 0x41 else 0
  candidateOwner := fun _ => 0x52

def tomox : TomoX := ⟨fun _ => .ok 0⟩

def orderBook : Hash := getOrderBookHash baseToken quoteToken

def firstAsk : OrderItem :=
  { emptyOrder with
    quantity := 5, price := 2, exchangeAddress := relayer, userAddress := firstMaker,
    baseToken, quoteToken, side := .ask, hash := 0xA1 }

/-- An ask of 5 at price 2 by the maker who holds no base token; the engine files it
under order id 2. -/
def poorAsk : OrderItem := { firstAsk with userAddress := poorMaker, hash := 0xA5 }

def higherAsk : OrderItem := { firstAsk with userAddress := secondMaker, price := 3, hash := 0xA4 }

/-- The cancellation of `poorAsk`, signed with the price of the other level. -/
def wrongPriceCancel : OrderItem := { poorAsk with status := .cancelled, nonce := 1, orderID := 2, price := 3 }

def bid : OrderItem :=
  { emptyOrder with
    quantity := 10, price := 2, exchangeAddress := relayer, userAddress := taker,
    baseToken, quoteToken, side := .bid, hash := 0xB1 }

def initial : Ledger := ⟨accounts, TomoXStateDB.empty (.empty sizeHasher)⟩

/-- The asks committed from an empty TomoX state: `firstAsk` and `poorAsk` at price 2,
`higherAsk` at price 3, and `wrongPriceCancel`; whether each commit succeeded. -/
def booking : EngineOp Bool := do
  let first ← tomox.commitOrder coinbase orderBook firstAsk 20
  let poor ← tomox.commitOrder coinbase orderBook poorAsk 20
  let higher ← tomox.commitOrder coinbase orderBook higherAsk 20
  let cancelled ← tomox.commitOrder coinbase orderBook wrongPriceCancel 20
  return first.toBool && poor.toBool && higher.toBool && cancelled.toBool

def booked : Ledger := (booking.run initial).2

end OneRelayer

open OneRelayer in
/-- `CommitOrder` reverts the TomoX state only. The cancellation at the wrong price
empties the record of `poorAsk` and leaves its amount in its level. The bid settles
against the first ask through `SetteBalance`, rejects `poorAsk`, whose maker holds no
base token, and fails to cancel it, since its record is empty. The error reverts the
order book, and the taker keeps the 5 base tokens and the first maker the 10 quote
tokens of the first trade. -/
theorem commitOrder_keeps_partial_settlement :
    (booking.run initial).1 = true ∧
      ((tomox.commitOrder coinbase orderBook bid 20).run booked).1 =
        .error (.orderItemEmpty orderBook (bigToHash 2) (bigToHash 2)) ∧
      ((booked.accounts.tokenBalances baseToken taker).val, (booked.accounts.tokenBalances quoteToken firstMaker).val) =
        (0, 0) ∧
      ((((tomox.commitOrder coinbase orderBook bid 20).run booked).2.accounts.tokenBalances baseToken taker).val,
        (((tomox.commitOrder coinbase orderBook bid 20).run booked).2.accounts.tokenBalances quoteToken
          firstMaker).val) = (5, 10) := by
  decide +kernel

open OneRelayer in
/-- An emptied level keeps its live object after its price leaves the asks trie. The
cancellation of the only ask at price 2 empties the level and deletes the price from
the trie; the next ask at price 2 finds the live level, adds to it and does not write
the price back. The book then has volume 5 at price 2 and no best ask. -/
theorem cancelled_level_hides_ask :
    Id.run (((do
        let placed ← tomox.commitOrder coinbase orderBook firstAsk 20
        let cancelled ← tomox.commitOrder coinbase orderBook
          { firstAsk with status := .cancelled, nonce := 1, orderID := 1 } 20
        let replaced ← tomox.commitOrder coinbase orderBook { firstAsk with nonce := 2, hash := 0xA3 } 20
        let best ← onTomox (getBestAskPrice orderBook)
        let volume ← onTomox (getVolume orderBook 2 .ask)
        return (placed.toBool && cancelled.toBool && replaced.toBool, best, volume)) :
          EngineOp (Bool × (Nat × Int) × Int)).run' ⟨accounts, TomoXStateDB.empty (.empty sizeHasher)⟩) =
      (true, (0, 0), 5) := by
  decide +kernel

open OneRelayer in
/-- A bid skips a better level the price trie has lost. The level at price 2 is
emptied by a cancellation, which deletes its price from the asks trie, and refilled
without writing the price back; with a second maker asking 5 at price 3, a bid of 5
at price 3 trades at price 3 while the level at price 2 holds 5 before and after. -/
theorem bid_skips_hidden_level :
    Id.run (((do
        let placed ← tomox.commitOrder coinbase orderBook firstAsk 20
        let cancelled ← tomox.commitOrder coinbase orderBook
          { firstAsk with status := .cancelled, nonce := 1, orderID := 1 } 20
        let replaced ← tomox.commitOrder coinbase orderBook { firstAsk with nonce := 2, hash := 0xA3 } 20
        let higher ← tomox.commitOrder coinbase orderBook
          { firstAsk with userAddress := secondMaker, price := 3, hash := 0xA4 } 20
        let hidden ← onTomox (getVolume orderBook 2 .ask)
        let taken ← tomox.commitOrder coinbase orderBook { bid with quantity := 5, price := 3 } 20
        let after ← onTomox (getVolume orderBook 2 .ask)
        return (placed.toBool && cancelled.toBool && replaced.toBool && higher.toBool, hidden,
          taken.map fun result => result.1.map (·.price), after)) :
          EngineOp (Bool × Int × Except TomoxError (List Nat) × Int)).run'
        ⟨accounts, TomoXStateDB.empty (.empty sizeHasher)⟩) =
      (true, 5, .ok [3], 5) := by
  decide +kernel

-- the instance of `DecidableEq` for the tuple the second run returns is a large term
set_option synthInstance.maxSize 512 in
open OneRelayer in
/-- Two gaps in the accounting of one order. A market bid over two levels returns the
rejects of the last level only: the first maker, who holds no base token, is cancelled
at price 2 and is not among the rejects. And a cancellation whose price names another
level, which its signature does not cover, empties the order's record but leaves its
amount of 5 in its level; a limit bid of 10 at price 2 then trades 5 twice against that
order, whose amount stays 5. -/
theorem matching_loses_rejects_and_amounts :
    Id.run (((do
        let poor ← tomox.commitOrder coinbase orderBook { firstAsk with userAddress := 0x74, hash := 0xA5 } 20
        let higher ← tomox.commitOrder coinbase orderBook
          { firstAsk with userAddress := secondMaker, price := 3, hash := 0xA4 } 20
        let taken ← tomox.commitOrder coinbase orderBook { bid with quantity := 5, price := 3, type := .market } 20
        let left ← onTomox (getVolume orderBook 2 .ask)
        return (poor.toBool && higher.toBool, taken.map fun result => (result.1.map (·.price), result.2.1.map (·.hash)), left)) :
          EngineOp (Bool × Except TomoxError (List Nat × List Hash) × Int)).run'
        ⟨accounts, TomoXStateDB.empty (.empty sizeHasher)⟩) =
      (true, .ok ([3], []), 0) ∧
    Id.run (((do
        let placed ← tomox.commitOrder coinbase orderBook firstAsk 20
        let higher ← tomox.commitOrder coinbase orderBook
          { firstAsk with userAddress := secondMaker, price := 3, hash := 0xA4 } 20
        let cancelled ← tomox.commitOrder coinbase orderBook
          { firstAsk with status := .cancelled, nonce := 1, orderID := 1, price := 3 } 20
        let before ← onTomox (getBestOrderIdAndAmount orderBook 2 .ask)
        let taken ← tomox.commitOrder coinbase orderBook { bid with price := 2 } 20
        let after ← onTomox (getBestOrderIdAndAmount orderBook 2 .ask)
        return (placed.toBool && higher.toBool && cancelled.toBool, before,
          taken.map fun result =>
            (result.1.map fun trade => (trade.makerOrderHash, trade.quantity), result.2.1.map (·.hash)),
          after)) :
          EngineOp (Bool × Except TomoxError (Hash × Nat) × Except TomoxError (List (Hash × Int) × List Hash) ×
            Except TomoxError (Hash × Nat))).run'
        ⟨accounts, TomoXStateDB.empty (.empty sizeHasher)⟩) =
      (true, .ok (1, 5), .ok ([(0xA1, 5), (0xA1, 5)], []), .ok (1, 5)) := by
  constructor <;> decide +kernel

end TomoChain.Tomox
