import Mathlib
import TomoChain.Tomox.State.Objects

set_option autoImplicit false

/-! `TomoXStateDB` (`tomox/tomox_state/statedb.go`): the live exchange objects over
the main trie, the journal, and the calls of the matching engine.

A method of Go that changes a live object through a pointer is here a call on the
object in the live map (`withExchange`), and a getter that loads or creates objects
returns the changed state as well: `GetOrder`, `GetVolume` and
`GetBestOrderIdAndAmount` create an empty exchange object for an unknown order book,
as `GetOrNewStateExchangeObject` does. -/
namespace TomoChain.Tomox

open Lib

/-- `revision`: a snapshot id and the journal length it reverts to. -/
structure Revision where
  id : Nat
  journalIndex : Nat
  deriving DecidableEq, Repr

/-- The entries of `journal.go`, each with what its `undo` needs. -/
inductive JournalEntry
  | insertOrder (orderBook orderId : Hash) (order : OrderItem)
  | cancelOrder (orderBook orderId : Hash) (order : OrderItem)
  | subAmountOrder (orderBook orderId : Hash) (order : OrderItem) (amount : Nat)
  | nonceChange (hash : Hash) (prev : Nat)
  | priceChange (hash : Hash) (prev : Option Nat)
  deriving DecidableEq, Repr

/-- `TomoXStateDB`, without its lock. -/
structure TomoXStateDB where
  db : Database
  trie : Trie ExchangeObject
  stateExhangeObjects : SortedMap Hash StateExchange
  stateExhangeObjectsDirty : SortedMap Hash Unit
  dbErr : Bool
  journal : List JournalEntry
  validRevisions : List Revision
  nextRevisionId : Nat

/-- A method of `TomoXStateDB`. -/
abbrev StateOp := StateM TomoXStateDB

namespace TomoXStateDB

/-- `New`: the main trie opened at `root`, or the error of a missing root. -/
def new (root : Hash) (db : Database) : Option TomoXStateDB :=
  match openTrie db.exchanges root with
  | some trie => some ⟨db, trie, .empty, .empty, false, [], [], 0⟩
  | none => none

/-- The state `New` opens at an empty root. -/
def empty (db : Database) : TomoXStateDB := ⟨db, .empty, .empty, .empty, false, [], [], 0⟩

theorem new_emptyRoot (hasher : TrieHasher) :
    new emptyRoot (Database.empty hasher) = some (empty (Database.empty hasher)) := by
  simp [new, openTrie, Database.empty, empty]

/-- A live exchange object written back after a change; if the change called the
object's callback, `MarkStateExchangeObjectDirty` marks it. -/
def storeExchange (s : TomoXStateDB) (before after : StateExchange) : TomoXStateDB :=
  let s := { s with stateExhangeObjects := s.stateExhangeObjects.insert after.hash after }
  if before.armed && !after.armed then
    { s with stateExhangeObjectsDirty := s.stateExhangeObjectsDirty.insert after.hash () }
  else s

end TomoXStateDB

open TomoXStateDB

/-- A call on the live exchange object `hash`, as through the pointer the Go code holds. -/
def withExchange {α : Type} [Inhabited α] (hash : Hash) (f : StateExchange → α × StateExchange) :
    StateOp α := fun s =>
  match s.stateExhangeObjects.get? hash with
  | some before =>
    let result := f before
    (result.1, s.storeExchange before result.2)
  | none => (default, s)

/-- `getStateExchangeObject`: the live object, else the object in the main trie, made live. -/
def getStateExchangeObject (addr : Hash) : StateOp (Option StateExchange) := fun s =>
  match s.stateExhangeObjects.get? addr with
  | some obj => (some obj, s)
  | none =>
    match s.trie.get? addr with
    | none => (none, s)
    | some data =>
      let obj := StateExchange.new s.db addr data
      (some obj, { s with stateExhangeObjects := s.stateExhangeObjects.insert addr obj })

/-- `createExchangeObject`: a zero object, live and dirty; its `setNonce(0)` has called
its callback. -/
def createExchangeObject (hash : Hash) : StateOp StateExchange := fun s =>
  let newobj := (StateExchange.new s.db hash .zero).setNonce 0
  (newobj, { s with
    stateExhangeObjects := s.stateExhangeObjects.insert hash newobj
    stateExhangeObjectsDirty := s.stateExhangeObjectsDirty.insert hash () })

/-- `GetOrNewStateExchangeObject`. -/
def getOrNewStateExchangeObject (addr : Hash) : StateOp StateExchange := do
  match ← getStateExchangeObject addr with
  | some obj => return obj
  | none => createExchangeObject addr

/-- `Exist`. -/
def exist (addr : Hash) : StateOp Bool := do
  return (← getStateExchangeObject addr).isSome

/-- `GetNonce`. -/
def getNonce (addr : Hash) : StateOp Nat := do
  match ← getStateExchangeObject addr with
  | some obj => return obj.data.nonce
  | none => return 0

/-- `GetPrice`. -/
def getPrice (addr : Hash) : StateOp (Option Nat) := do
  match ← getStateExchangeObject addr with
  | some obj => return obj.data.price
  | none => return none

/-- Appending to the journal. -/
def addJournal (entry : JournalEntry) : StateOp Unit :=
  modify fun s => { s with journal := s.journal ++ [entry] }

/-- `SetNonce`. -/
def setNonce (addr : Hash) (nonce : Nat) : StateOp Unit := do
  let _ ← getOrNewStateExchangeObject addr
  let prev ← getNonce addr
  addJournal (.nonceChange addr prev)
  withExchange addr fun e => ((), e.setNonce nonce)

/-- `SetPrice`. -/
def setPrice (addr : Hash) (price : Option Nat) : StateOp Unit := do
  let stateObject ← getOrNewStateExchangeObject addr
  addJournal (.priceChange addr stateObject.data.price)
  withExchange addr fun e => ((), e.setPrice price)

/-- The live level of `book` at `price` in the order book, loaded from the trie if needed. -/
def getOrderList (orderBook : Hash) (book : Book) (price : Hash) : StateOp (Option StateOrderList) := do
  let db := (← get).db
  withExchange orderBook fun e => e.getStateOrderListObject db book price

/-- `removeStateOrderListAskObject` or `removeStateOrderListBidObject` on the live level
at `price`. -/
def removeOrderList (orderBook : Hash) (book : Book) (price : Hash) : StateOp Unit :=
  withExchange orderBook fun e =>
    match (e.listObjects book).get? price with
    | some l => ((), e.removeStateOrderListObject book l)
    | none => ((), e)

/-- `InsertOrderItem`. An order of unknown side is not inserted, but the order book's
object has been created by then. -/
def insertOrderItem (orderBook orderId : Hash) (order : OrderItem) : StateOp Unit := do
  let priceHash := bigToHash order.price
  let _ ← getOrNewStateExchangeObject orderBook
  match order.side.book? with
  | none => return
  | some book =>
    let db := (← get).db
    match ← getOrderList orderBook book priceHash with
    | some _ => pure ()
    | none => withExchange orderBook fun e => ((), (e.createStateOrderListObject db book priceHash).2)
    addJournal (.insertOrder orderBook orderId order)
    withExchange orderBook fun e => ((), e.createStateOrderObject orderId order)
    withExchange orderBook fun e => e.withList book priceHash fun l =>
      ((), (l.insertOrderItem orderId (bigToHash order.quantity)).addVolume order.quantity)

/-- `GetOrder`. -/
def getOrder (orderBook orderId : Hash) : StateOp OrderItem := do
  let _ ← getOrNewStateExchangeObject orderBook
  match ← withExchange orderBook fun e => e.getStateOrderObject orderId with
  | some item => return item.data
  | none => return emptyOrder

/-- The amount of an order in a live level, cached by the read. -/
def getOrderAmount (orderBook : Hash) (book : Book) (price orderId : Hash) : StateOp Hash :=
  withExchange orderBook fun e => e.withList book price fun l => l.getOrderAmount orderId

/-- `SubAmountOrderItem`. -/
def subAmountOrderItem (orderBook orderId : Hash) (price amount : Nat) (side : Side) :
    StateOp (Except TomoxError Unit) := do
  let priceHash := bigToHash price
  let _ ← getOrNewStateExchangeObject orderBook
  match side.book? with
  | none => return .error .orderTypeNotFound
  | some book =>
    let list? ← getOrderList orderBook book priceHash
    match list? with
    | none => return .error (.orderListEmpty orderBook orderId priceHash)
    | some list =>
      if list.empty then return .error (.orderListEmpty orderBook orderId priceHash)
      let item? ← withExchange orderBook fun e => e.getStateOrderObject orderId
      match item? with
      | none => return .error (.orderItemEmpty orderBook orderId priceHash)
      | some item =>
        if item.empty then return .error (.orderItemEmpty orderBook orderId priceHash)
        let currentAmount := (← getOrderAmount orderBook book priceHash orderId).val
        if currentAmount < amount then
          return .error (.orderAmountNotEnough orderId currentAmount amount)
        let order ← getOrder orderBook orderId
        addJournal (.subAmountOrder orderBook orderId order amount)
        let newAmount := currentAmount - amount
        withExchange orderBook fun e => e.withList book priceHash fun l => ((), l.subVolume amount)
        withExchange orderBook fun e => e.withItem orderId fun item => ((), item.setVolume newAmount)
        let emptied ← withExchange orderBook fun e => e.withList book priceHash fun l =>
          let l := if newAmount = 0 then l.removeOrderItem orderId
            else l.setOrderItem orderId (bigToHash newAmount)
          (l.empty, l)
        if emptied then removeOrderList orderBook book priceHash
        return .ok ()

/-- `CancelOrder`. -/
def cancelOrder (orderBook : Hash) (order : OrderItem) : StateOp (Except TomoxError Unit) := do
  let priceHash := bigToHash order.price
  let orderIdHash := bigToHash order.orderID
  let _ ← getOrNewStateExchangeObject orderBook
  match order.side.book? with
  | none => return .error .orderSideNotFound
  | some book =>
    let list? ← getOrderList orderBook book priceHash
    match list? with
    | none => return .error (.orderListEmpty orderBook orderIdHash priceHash)
    | some list =>
      if list.empty then return .error (.orderListEmpty orderBook orderIdHash priceHash)
      let item? ← withExchange orderBook fun e => e.getStateOrderObject orderIdHash
      match item? with
      | none => return .error (.orderItemEmpty orderBook orderIdHash priceHash)
      | some item =>
        if item.empty then return .error (.orderItemEmpty orderBook orderIdHash priceHash)
        if item.data.hash ≠ order.hash then
          return .error (.orderHashMismatch orderBook orderIdHash item.data.hash order.hash)
        let stored ← getOrder orderBook orderIdHash
        addJournal (.cancelOrder orderBook orderIdHash stored)
        let currentAmount := (← getOrderAmount orderBook book priceHash orderIdHash).val
        withExchange orderBook fun e => e.withItem orderIdHash fun item => ((), item.setVolume 0)
        let emptied ← withExchange orderBook fun e => e.withList book priceHash fun l =>
          let l := (l.subVolume currentAmount).removeOrderItem orderIdHash
          (l.empty, l)
        if emptied then removeOrderList orderBook book priceHash
        return .ok ()

/-- `GetVolume`: the volume of a live level, zero for an empty or missing level. -/
def getVolume (orderBook : Hash) (price : Nat) (side : Side) : StateOp Int := do
  let _ ← getOrNewStateExchangeObject orderBook
  match side.book? with
  | none => return 0
  | some book =>
    match ← getOrderList orderBook book (bigToHash price) with
    | none => return 0
    | some list => if list.empty then return 0 else return list.data.volume

/-- `GetBestAskPrice` and `GetBestBidPrice`, given the best price of the trie: that
price and the volume of its level, or zeros. They do not create the object. -/
def getBestPrice (orderBook : Hash) (book : Book) (best : StateExchange → Hash) : StateOp (Nat × Int) := do
  match ← getStateExchangeObject orderBook with
  | none => return (0, 0)
  | some stateObject =>
    let priceHash := best stateObject
    if priceHash = 0 then return (0, 0)
    match ← getOrderList orderBook book priceHash with
    | none => return (0, 0)
    | some orderList => return (priceHash.val, orderList.data.volume)

def getBestAskPrice (orderBook : Hash) : StateOp (Nat × Int) :=
  getBestPrice orderBook .asks StateExchange.getBestPriceAsksTrie

def getBestBidPrice (orderBook : Hash) : StateOp (Nat × Int) :=
  getBestPrice orderBook .bids StateExchange.getBestBidsTrie

/-- `GetBestOrderIdAndAmount`: the least order id in the trie of a level and its amount. -/
def getBestOrderIdAndAmount (orderBook : Hash) (price : Nat) (side : Side) :
    StateOp (Except TomoxError (Hash × Nat)) := do
  let _ ← getOrNewStateExchangeObject orderBook
  match side.book? with
  | none => return .error .notFoundSide
  | some book =>
    match ← getOrderList orderBook book (bigToHash price) with
    | none => return .error (.notFoundOrderList orderBook price)
    | some list =>
      let orderId := match list.trie.least? with
        | some entry => entry.1
        | none => 0
      let amount ← getOrderAmount orderBook book (bigToHash price) orderId
      return .ok (orderId, amount.val)

end TomoChain.Tomox
