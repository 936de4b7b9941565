import Mathlib
import TomoChain.Tomox.Types

set_option autoImplicit false

/-! The live objects of the TomoX state: `stateOrderItem`, `stateOrderList` and
`stateExchanges` (`state_orderItem.go`, `state_orderList.go`, `state_orderbook.go`).

Each object holds the record it was loaded with, the tries below it, caches of its
children and the keys of the children it must write back. Its `onDirty` callback is
the flag `armed`: the first change of the object calls the callback, which marks the
object dirty in its parent, and clears it, so later changes mark nothing. A parent
sees the call as the child's flag going from `true` to `false` when it stores the
changed child back (`storeList`, `storeItem`).

The tries of an object are opened when the object is made instead of on first
access: the trie database never changes what a root opens to
(`openTrie_storeTrie_of_lookup`), and a root changes only after its trie is opened,
so both open the same trie and record the same error. -/
namespace TomoChain.Tomox

open Lib

/-! ## `stateOrderItem` -/

/-- A live order; `orderId` is the key its callback marks dirty. -/
structure StateOrderItem where
  orderId : Hash
  data : OrderItem
  armed : Bool

namespace StateOrderItem

/-- `newStateOrderItem`. -/
def new (orderId : Hash) (data : OrderItem) : StateOrderItem := ⟨orderId, data, true⟩

/-- `empty`: a zero quantity. -/
def empty (item : StateOrderItem) : Bool := item.data.quantity = 0

/-- `setVolume`, which sets the order's quantity. -/
def setVolume (item : StateOrderItem) (volume : Nat) : StateOrderItem :=
  { item with data := { item.data with quantity := volume }, armed := false }

end StateOrderItem

/-! ## `stateOrderList` -/

/-- A live price level: its record, the trie of its orders' amounts, the amounts read
(`cachedStorage`) and those to write back (`dirtyStorage`). -/
structure StateOrderList where
  price : Hash
  data : OrderList
  dbErr : Bool
  trie : Trie Hash
  cachedStorage : SortedMap Hash Hash
  dirtyStorage : SortedMap Hash Hash
  armed : Bool

namespace StateOrderList

/-- `empty`: a zero volume. -/
def empty (l : StateOrderList) : Bool := l.data.volume = 0

/-- `newStateOrderList`, with its trie opened at the record's root. -/
def new (db : Database) (price : Hash) (data : OrderList) : StateOrderList :=
  let opened := openOrEmpty db.amounts data.root
  ⟨price, data, opened.2, opened.1, .empty, .empty, true⟩

/-- `GetOrderAmount`: the cached amount, else the amount in the trie, which it caches. -/
def getOrderAmount (l : StateOrderList) (orderId : Hash) : Hash × StateOrderList :=
  match l.cachedStorage.get? orderId with
  | some amount => (amount, l)
  | none =>
    let amount := (l.trie.get? orderId).getD 0
    (amount, { l with cachedStorage := l.cachedStorage.insert orderId amount })

/-- `setOrderItem`: the amount cached and marked for writing back. -/
def setOrderItem (l : StateOrderList) (orderId amount : Hash) : StateOrderList :=
  { l with
    cachedStorage := l.cachedStorage.insert orderId amount
    dirtyStorage := l.dirtyStorage.insert orderId amount
    armed := false }

/-- `insertOrderItem`: `setOrderItem`, and the amount written to the trie at once. -/
def insertOrderItem (l : StateOrderList) (orderId amount : Hash) : StateOrderList :=
  let l := l.setOrderItem orderId amount
  { l with trie := l.trie.insert orderId amount }

/-- `removeOrderItem`: the order deleted from the trie, and its amount set to zero. -/
def removeOrderItem (l : StateOrderList) (orderId : Hash) : StateOrderList :=
  let l := { l with trie := l.trie.erase orderId }
  l.setOrderItem orderId 0

/-- `updateTrie`: the dirty amounts written to the trie, a zero amount as a deletion. -/
def updateTrie (l : StateOrderList) : StateOrderList :=
  let trie := l.dirtyStorage.entries.foldl
    (fun trie entry => if entry.2 = 0 then trie.erase entry.1 else trie.insert entry.1 entry.2) l.trie
  { l with trie := trie, dirtyStorage := .empty }

/-- `updateRoot`: after `updateTrie`, the trie committed and its root recorded, unless
the list has an error, which is returned (`true`) instead. -/
def updateRoot (db : Database) (l : StateOrderList) : Database × StateOrderList × Bool :=
  let l := l.updateTrie
  if l.dbErr then (db, l, true)
  else
    let root := db.hasher.amounts l.trie
    ({ db with amounts := storeTrie db.amounts root l.trie }, { l with data := { l.data with root := root } }, false)

/-- `setVolume`. -/
def setVolume (l : StateOrderList) (volume : Int) : StateOrderList :=
  { l with data := { l.data with volume := volume }, armed := false }

/-- `AddVolume`. -/
def addVolume (l : StateOrderList) (amount : Nat) : StateOrderList := l.setVolume (l.data.volume + amount)

/-- `subVolume`. -/
def subVolume (l : StateOrderList) (amount : Nat) : StateOrderList := l.setVolume (l.data.volume - amount)

end StateOrderList

/-! ## `stateExchanges` -/

/-- A live order book (or nonce holder): its record, its three tries, and the live
price levels and orders with their dirty keys. -/
structure StateExchange where
  hash : Hash
  data : ExchangeObject
  dbErr : Bool
  asksTrie : Trie OrderList
  bidsTrie : Trie OrderList
  ordersTrie : Trie OrderItem
  stateAskObjects : SortedMap Hash StateOrderList
  stateAskObjectsDirty : SortedMap Hash Unit
  stateBidObjects : SortedMap Hash StateOrderList
  stateBidObjectsDirty : SortedMap Hash Unit
  stateOrderObjects : SortedMap Hash StateOrderItem
  stateOrderObjectsDirty : SortedMap Hash Unit
  armed : Bool

namespace StateExchange

/-- `newStateExchanges`, with its tries opened at the record's roots. -/
def new (db : Database) (hash : Hash) (data : ExchangeObject) : StateExchange :=
  let asks := openOrEmpty db.orderLists data.askRoot
  let bids := openOrEmpty db.orderLists data.bidRoot
  let orders := openOrEmpty db.orders data.orderRoot
  { hash := hash, data := data, dbErr := asks.2 || bids.2 || orders.2
    asksTrie := asks.1, bidsTrie := bids.1, ordersTrie := orders.1
    stateAskObjects := .empty, stateAskObjectsDirty := .empty
    stateBidObjects := .empty, stateBidObjectsDirty := .empty
    stateOrderObjects := .empty, stateOrderObjectsDirty := .empty
    armed := true }

/-! The ask and the bid fields, chosen by the trie they belong to. -/

/-- `asksTrie` or `bidsTrie`. -/
def listsTrie (e : StateExchange) : Book → Trie OrderList
  | .asks => e.asksTrie
  | .bids => e.bidsTrie

/-- `stateAskObjects` or `stateBidObjects`. -/
def listObjects (e : StateExchange) : Book → SortedMap Hash StateOrderList
  | .asks => e.stateAskObjects
  | .bids => e.stateBidObjects

/-- `stateAskObjectsDirty` or `stateBidObjectsDirty`. -/
def listObjectsDirty (e : StateExchange) : Book → SortedMap Hash Unit
  | .asks => e.stateAskObjectsDirty
  | .bids => e.stateBidObjectsDirty

def setListsTrie (e : StateExchange) (book : Book) (trie : Trie OrderList) : StateExchange :=
  match book with
  | .asks => { e with asksTrie := trie }
  | .bids => { e with bidsTrie := trie }

def setListObjects (e : StateExchange) (book : Book) (lists : SortedMap Hash StateOrderList) :
    StateExchange :=
  match book with
  | .asks => { e with stateAskObjects := lists }
  | .bids => { e with stateBidObjects := lists }

def setListObjectsDirty (e : StateExchange) (book : Book) (dirty : SortedMap Hash Unit) :
    StateExchange :=
  match book with
  | .asks => { e with stateAskObjectsDirty := dirty }
  | .bids => { e with stateBidObjectsDirty := dirty }

/-- `setNonce`. -/
def setNonce (e : StateExchange) (nonce : Nat) : StateExchange :=
  { e with data := { e.data with nonce := nonce }, armed := false }

/-- `setPrice`; the price of `SetPrice` may be `nil`. -/
def setPrice (e : StateExchange) (price : Option Nat) : StateExchange :=
  { e with data := { e.data with price := price }, armed := false }

/-! ### Price levels -/

/-- `MarkStateAskObjectDirty` and `MarkStateBidObjectDirty`: the level marked, and the
object's own callback called. -/
def markStateOrderListObjectDirty (e : StateExchange) (book : Book) (price : Hash) : StateExchange :=
  { e.setListObjectsDirty book ((e.listObjectsDirty book).insert price ()) with armed := false }

def markStateAskObjectDirty (e : StateExchange) (price : Hash) : StateExchange :=
  e.markStateOrderListObjectDirty .asks price

def markStateBidObjectDirty (e : StateExchange) (price : Hash) : StateExchange :=
  e.markStateOrderListObjectDirty .bids price

/-- A live level written back after a change; if the change called the level's
callback, the level is marked dirty. -/
def storeList (e : StateExchange) (book : Book) (before after : StateOrderList) : StateExchange :=
  let e := e.setListObjects book ((e.listObjects book).insert after.price after)
  if before.armed && !after.armed then e.markStateOrderListObjectDirty book after.price else e

/-- A call on the live level at `price`, as through the pointer the Go code holds. -/
def withList {α : Type} [Inhabited α] (e : StateExchange) (book : Book) (price : Hash)
    (f : StateOrderList → α × StateOrderList) : α × StateExchange :=
  match (e.listObjects book).get? price with
  | some before =>
    let result := f before
    (result.1, e.storeList book before result.2)
  | none => (default, e)

/-- `getStateOrderListAskObject` and `getStateBidOrderListObject`: the live level, else
the level in the trie, which is made live. -/
def getStateOrderListObject (db : Database) (e : StateExchange) (book : Book) (price : Hash) :
    Option StateOrderList × StateExchange :=
  match (e.listObjects book).get? price with
  | some obj => (some obj, e)
  | none =>
    match (e.listsTrie book).get? price with
    | none => (none, e)
    | some data =>
      let obj := StateOrderList.new db price data
      (some obj, e.setListObjects book ((e.listObjects book).insert price obj))

def getStateOrderListAskObject (db : Database) (e : StateExchange) (price : Hash) :
    Option StateOrderList × StateExchange :=
  e.getStateOrderListObject db .asks price

def getStateBidOrderListObject (db : Database) (e : StateExchange) (price : Hash) :
    Option StateOrderList × StateExchange :=
  e.getStateOrderListObject db .bids price

/-- `createStateOrderListAskObject` and `createStateBidOrderListObject`: a level of zero
volume, live and dirty, and written to the trie at once. -/
def createStateOrderListObject (db : Database) (e : StateExchange) (book : Book) (price : Hash) :
    StateOrderList × StateExchange :=
  let newobj := StateOrderList.new db price ⟨0, 0⟩
  let e := e.setListObjects book ((e.listObjects book).insert price newobj)
  let e := e.setListObjectsDirty book ((e.listObjectsDirty book).insert price ())
  let e := e.setListsTrie book ((e.listsTrie book).insert price newobj.data)
  (newobj, { e with armed := false })

def createStateOrderListAskObject (db : Database) (e : StateExchange) (price : Hash) :
    StateOrderList × StateExchange :=
  e.createStateOrderListObject db .asks price

def createStateBidOrderListObject (db : Database) (e : StateExchange) (price : Hash) :
    StateOrderList × StateExchange :=
  e.createStateOrderListObject db .bids price

/-- `removeStateOrderListAskObject` and `removeStateOrderListBidObject`: the level's
price deleted from the trie; the live level stays. -/
def removeStateOrderListObject (e : StateExchange) (book : Book) (l : StateOrderList) : StateExchange :=
  e.setListsTrie book ((e.listsTrie book).erase l.price)

def removeStateOrderListAskObject (e : StateExchange) (l : StateOrderList) : StateExchange :=
  e.removeStateOrderListObject .asks l

def removeStateOrderListBidObject (e : StateExchange) (l : StateOrderList) : StateExchange :=
  e.removeStateOrderListObject .bids l

/-- `getBestPriceAsksTrie`: the least price in the asks trie, or the empty hash. -/
def getBestPriceAsksTrie (e : StateExchange) : Hash :=
  match e.asksTrie.least? with
  | some entry => entry.1
  | none => 0

/-- `getBestBidsTrie`: the greatest price in the bids trie, or the empty hash. -/
def getBestBidsTrie (e : StateExchange) : Hash :=
  match e.bidsTrie.greatest? with
  | some entry => entry.1
  | none => 0

/-- `updateAsksTrie` and `updateBidsTrie`: each dirty live level is written to the trie
(a level of zero volume as a deletion) after committing its own trie. -/
def updateOrderListsTrie (db : Database) (e : StateExchange) (book : Book) : Database × StateExchange :=
  (e.listObjects book).entries.foldl
    (fun (done : Database × StateExchange) entry =>
      let db := done.1
      let e := done.2
      if (e.listObjectsDirty book).contains entry.1 then
        let e := e.setListObjectsDirty book ((e.listObjectsDirty book).erase entry.1)
        if entry.2.empty then (db, e.setListsTrie book ((e.listsTrie book).erase entry.1))
        else
          -- `updateRoot`'s error is dropped here, as in the Go code
          let updated := entry.2.updateRoot db
          let e := e.setListObjects book ((e.listObjects book).insert entry.1 updated.2.1)
          (updated.1, e.setListsTrie book ((e.listsTrie book).insert entry.1 updated.2.1.data))
      else (db, e))
    (db, e)

/-- `updateAsksRoot`: with no error, the root of the asks trie recorded. -/
def updateAsksRoot (db : Database) (e : StateExchange) : Database × StateExchange × Bool :=
  let updated := e.updateOrderListsTrie db .asks
  let e := updated.2
  if e.dbErr then (updated.1, e, true)
  else (updated.1, { e with data := { e.data with askRoot := db.hasher.orderLists e.asksTrie } }, false)

/-- `updateBidsRoot`: unlike `updateAsksRoot`, it records the root whatever the error. -/
def updateBidsRoot (db : Database) (e : StateExchange) : Database × StateExchange :=
  let updated := e.updateOrderListsTrie db .bids
  let e := updated.2
  (updated.1, { e with data := { e.data with bidRoot := db.hasher.orderLists e.bidsTrie } })

/-- `CommitAsksTrie` and `CommitBidsTrie`: after the update, the trie committed and its
root recorded, unless the object has an error (`true`). -/
def commitOrderListsTrie (db : Database) (e : StateExchange) (book : Book) :
    Database × StateExchange × Bool :=
  let updated := e.updateOrderListsTrie db book
  let db := updated.1
  let e := updated.2
  if e.dbErr then (db, e, true)
  else
    let trie := e.listsTrie book
    let root := db.hasher.orderLists trie
    let db := { db with orderLists := storeTrie db.orderLists root trie }
    match book with
    | .asks => (db, { e with data := { e.data with askRoot := root } }, false)
    | .bids => (db, { e with data := { e.data with bidRoot := root } }, false)

def commitAsksTrie (db : Database) (e : StateExchange) : Database × StateExchange × Bool :=
  e.commitOrderListsTrie db .asks

def commitBidsTrie (db : Database) (e : StateExchange) : Database × StateExchange × Bool :=
  e.commitOrderListsTrie db .bids

/-! ### Orders -/

/-- `MarkStateOrderObjectDirty`. -/
def markStateOrderObjectDirty (e : StateExchange) (orderId : Hash) : StateExchange :=
  { e with stateOrderObjectsDirty := e.stateOrderObjectsDirty.insert orderId (), armed := false }

/-- A live order written back under `key` after a change; its callback marks the
order's own `orderId`. -/
def storeItem (e : StateExchange) (key : Hash) (before after : StateOrderItem) : StateExchange :=
  let e := { e with stateOrderObjects := e.stateOrderObjects.insert key after }
  if before.armed && !after.armed then e.markStateOrderObjectDirty after.orderId else e

/-- A call on the live order at `key`. -/
def withItem {α : Type} [Inhabited α] (e : StateExchange) (key : Hash)
    (f : StateOrderItem → α × StateOrderItem) : α × StateExchange :=
  match e.stateOrderObjects.get? key with
  | some before =>
    let result := f before
    (result.1, e.storeItem key before result.2)
  | none => (default, e)

/-- `getStateOrderObject`: the live order, else the order in the trie, made live. -/
def getStateOrderObject (e : StateExchange) (orderId : Hash) : Option StateOrderItem × StateExchange :=
  match e.stateOrderObjects.get? orderId with
  | some obj => (some obj, e)
  | none =>
    match e.ordersTrie.get? orderId with
    | none => (none, e)
    | some data =>
      let obj := StateOrderItem.new orderId data
      (some obj, { e with stateOrderObjects := e.stateOrderObjects.insert orderId obj })

/-- `createStateOrderObject`: the order made live and dirty under the hash of its
`OrderID`, which need not be `orderId`. -/
def createStateOrderObject (e : StateExchange) (orderId : Hash) (order : OrderItem) : StateExchange :=
  let newobj := StateOrderItem.new orderId order
  let orderIdHash := bigToHash order.orderID
  { e with
    stateOrderObjects := e.stateOrderObjects.insert orderIdHash newobj
    stateOrderObjectsDirty := e.stateOrderObjectsDirty.insert orderIdHash ()
    armed := false }

/-- `updateOrdersTrie`: each dirty live order written to the trie, an empty one as a deletion. -/
def updateOrdersTrie (e : StateExchange) : StateExchange :=
  e.stateOrderObjects.entries.foldl
    (fun e entry =>
      if e.stateOrderObjectsDirty.contains entry.1 then
        let e := { e with stateOrderObjectsDirty := e.stateOrderObjectsDirty.erase entry.1 }
        if entry.2.empty then { e with ordersTrie := e.ordersTrie.erase entry.1 }
        else { e with ordersTrie := e.ordersTrie.insert entry.1 entry.2.data }
      else e)
    e

/-- `updateOrdersRoot`. -/
def updateOrdersRoot (db : Database) (e : StateExchange) : StateExchange :=
  let e := e.updateOrdersTrie
  { e with data := { e.data with orderRoot := db.hasher.orders e.ordersTrie } }

/-- `CommitOrdersTrie`. -/
def commitOrdersTrie (db : Database) (e : StateExchange) : Database × StateExchange × Bool :=
  let e := e.updateOrdersTrie
  if e.dbErr then (db, e, true)
  else
    let root := db.hasher.orders e.ordersTrie
    ({ db with orders := storeTrie db.orders root e.ordersTrie },
      { e with data := { e.data with orderRoot := root } }, false)

end StateExchange

end TomoChain.Tomox
