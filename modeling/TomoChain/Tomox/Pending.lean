import Mathlib
import TomoChain.Tomox.Matching

set_option autoImplicit false

/-! The two runs of the matching engine over a block: the miner's
`ProcessOrderPending` (`tomox/tomox.go`), which commits each pending order and
records the orders that succeed, and the validator's `ValidateMatchingOrder`
(`core/block_validator.go`), which applies the recorded orders again.

`NewOrderTransactionByNonce` keeps the head transaction of each account in a heap
by nonce. The accounts come from a Go map, so the order among heads of equal
nonce is not fixed by the code; the model takes the first head of least nonce.
The sender of a transaction is the account the pool filed it under. The RLP
encoding of the recorded order is decoded back to the same order (`DecodeOrder`). -/
namespace TomoChain.Tomox

open Lib

/-- An order transaction, with the fields `ProcessOrderPending` reads. -/
structure OrderTransaction where
  accountNonce : Nat
  quantity : Nat
  price : Nat
  exchangeAddress : Address
  userAddress : Address
  baseToken : Address
  quoteToken : Address
  status : OrderStatus
  side : Side
  type : OrderType
  v : Nat
  hash : Hash
  orderID : Nat
  deriving DecidableEq, Repr

/-- The order that `ProcessOrderPending` builds from a transaction. -/
def OrderTransaction.toOrderItem (tx : OrderTransaction) : OrderItem :=
  { quantity := tx.quantity, price := tx.price, exchangeAddress := tx.exchangeAddress,
    userAddress := tx.userAddress, baseToken := tx.baseToken, quoteToken := tx.quoteToken,
    status := tx.status, side := tx.side, type := tx.type, hash := tx.hash,
    nonce := tx.accountNonce, orderID := tx.orderID }

/-- `strconv.ParseInt(V.String(), 10, 8)` succeeds: `V` fits in an `int8`. -/
def OrderTransaction.vParses (tx : OrderTransaction) : Bool := decide (tx.v < 128)

/-- `OrderTransactionByNonce`: the head transaction of each account, and the rest of
each account's transactions in nonce order. -/
structure OrderTransactionByNonce where
  txs : Address → List OrderTransaction
  heads : List (Address × OrderTransaction)

namespace OrderTransactionByNonce

/-- `NewOrderTransactionByNonce`: the first transaction of each account is its head. -/
def new (pending : List (Address × List OrderTransaction)) : OrderTransactionByNonce where
  txs := fun account => ((pending.lookup account).getD []).tail
  heads := pending.filterMap fun entry => entry.2.head?.map (entry.1, ·)

/-- The first head of least nonce. -/
def best? : List (Address × OrderTransaction) → Option (Address × OrderTransaction)
  | [] => none
  | head :: rest =>
    match best? rest with
    | some other => if other.2.accountNonce < head.2.accountNonce then some other else some head
    | none => some head

/-- `Peek`. -/
def peek (t : OrderTransactionByNonce) : Option (Address × OrderTransaction) := best? t.heads

/-- `Shift`: the peeked head replaced by the next transaction of its account, if any. -/
def shift (t : OrderTransactionByNonce) : OrderTransactionByNonce :=
  match t.peek with
  | none => t
  | some head =>
    match t.txs head.1 with
    | next :: rest =>
      { txs := Function.update t.txs head.1 rest, heads := t.heads.erase head ++ [(head.1, next)] }
    | [] => { t with heads := t.heads.erase head }

/-- `Pop`: the peeked head removed, and with it the rest of its account. -/
def pop (t : OrderTransactionByNonce) : OrderTransactionByNonce :=
  match t.peek with
  | none => t
  | some head => { t with heads := t.heads.erase head }

end OrderTransactionByNonce

/-- `TxDataMatch`: an order the miner processed (decoded), its trades and its rejects. -/
structure TxDataMatch where
  order : OrderItem
  trades : List Trade
  rejectedOders : List OrderItem
  deriving DecidableEq, Repr

namespace TomoX

/-- The loop of `ProcessOrderPending`. A transaction whose `V` does not parse is
skipped with `continue` and no `Shift`, so `Peek` returns it again. -/
def processOrderPendingLoop (tomox : TomoX) (coinbase : Address) :
    Nat → OrderTransactionByNonce → List TxDataMatch → EngineOp (Except TomoxError (List TxDataMatch))
  | 0, _, _ => return .error .outOfFuel
  | fuel + 1, txs, txMatches => do
    match txs.peek with
    | none => return .ok txMatches
    | some (_, tx) =>
      if !tx.vParses then processOrderPendingLoop tomox coinbase fuel txs txMatches else
      let order := tx.toOrderItem
      match ← tomox.commitOrder coinbase (getOrderBookHash order.baseToken order.quoteToken) order fuel with
      | .error .nonceTooLow => processOrderPendingLoop tomox coinbase fuel txs.shift txMatches
      | .error .nonceTooHigh => processOrderPendingLoop tomox coinbase fuel txs.pop txMatches
      | .error _ => processOrderPendingLoop tomox coinbase fuel txs.shift txMatches
      | .ok (trades, rejects, processed) =>
        -- the recorded order is the original one, with the order id the engine gave it
        let originalOrder := { order with orderID := processed.orderID }
        processOrderPendingLoop tomox coinbase fuel txs.shift (txMatches ++ [⟨originalOrder, trades, rejects⟩])

/-- `ProcessOrderPending`. -/
def processOrderPending (tomox : TomoX) (coinbase : Address) (pending : List (Address × List OrderTransaction))
    (fuel : Nat) : EngineOp (Except TomoxError (List TxDataMatch)) :=
  tomox.processOrderPendingLoop coinbase fuel (.new pending) []

/-- `ValidateMatchingOrder`: each recorded order decoded, verified against the account
state (`VerifyOrder`: its signature, relayer and pair), and applied again. -/
def validateMatchingOrder (tomox : TomoX) (verifyOrder : OrderItem → AccountState → Except TomoxError Unit)
    (coinbase : Address) (fuel : Nat) : List TxDataMatch → EngineOp (Except TomoxError Unit)
  | [] => return .ok ()
  | txMatch :: rest => do
    let order := txMatch.order
    match verifyOrder order (← get).accounts with
    | .error e => return .error e
    | .ok () =>
      match ← tomox.applyOrder coinbase (getOrderBookHash order.baseToken order.quoteToken) order fuel with
      | .error e => return .error e
      | .ok _ => validateMatchingOrder tomox verifyOrder coinbase fuel rest

end TomoX

namespace OneRelayer

/-- The bid, as the taker's pending order transaction. -/
def pendingBid : List (Address × List OrderTransaction) :=
  [(taker, [{
    accountNonce := 0, quantity := 10, price := 2, exchangeAddress := relayer, userAddress := taker,
    baseToken, quoteToken, status := .new, side := .bid, type := .limit, v := 27, hash := 0xB1, orderID := 0 }])]

end OneRelayer

open OneRelayer in
/-- The miner and a validator end a block with different balances. The bid fails in
`CommitOrder` after settling against the first ask, when it cannot cancel the ask whose
record a cancellation at the wrong price emptied, so the miner records no order, but
its account state keeps the first trade; the validator replays the empty record and
keeps the balances of the booked state, whatever `VerifyOrder` checks. -/
theorem miner_validator_balances_differ (verifyOrder : OrderItem → AccountState → Except TomoxError Unit) :
    let mined := (tomox.processOrderPending coinbase pendingBid 20).run booked
    let validated := match mined.1 with
      | .ok txMatches => (tomox.validateMatchingOrder verifyOrder coinbase 20 txMatches).run booked
      | .error e => (.error e, booked)
    mined.1 = .ok [] ∧ validated.1 = .ok () ∧
      (mined.2.accounts.tokenBalances baseToken taker).val = 5 ∧
      (validated.2.accounts.tokenBalances baseToken taker).val = 0 := by
  have recorded : ((tomox.processOrderPending coinbase pendingBid 20).run booked).1 = .ok [] := by
    decide +kernel
  have minedBalance :
      (((tomox.processOrderPending coinbase pendingBid 20).run booked).2.accounts.tokenBalances baseToken taker).val =
        5 := by
    decide +kernel
  have bookedBalance : (booked.accounts.tokenBalances baseToken taker).val = 0 := by
    decide +kernel
  -- the validator's loop over no recorded order returns at once, so `verifyOrder` is never called
  simp only [recorded, minedBalance]
  exact ⟨trivial, rfl, trivial, bookedBalance⟩

end TomoChain.Tomox
