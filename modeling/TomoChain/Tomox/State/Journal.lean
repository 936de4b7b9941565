import Mathlib
import TomoChain.Tomox.State.StateDB

set_option autoImplicit false

/-! Snapshots and their revert (`journal.go`, `Snapshot` and `RevertToSnapshot` in
`statedb.go`), and the flush of the live objects to the tries (`Finalise`,
`IntermediateRoot`, `Commit`).

The undo of a journal entry calls the forward methods again, which append entries
of their own; `RevertToSnapshot` undoes the entries that were there when it started,
newest first, and then cuts the journal back to the snapshot. A Go panic (a revision
id that is not valid, an undo through a `nil` object) is the result `none`. -/
namespace TomoChain.Tomox

open Lib TomoXStateDB

/-- `subAmountOrder.undo`: the amount added back to the order and to its level. -/
def undoSubAmountOrder (orderBook orderId : Hash) (order : OrderItem) (amount : Nat) :
    StateOp (Option Unit) := do
  let priceHash := bigToHash order.price
  let stateOrderBook ← getStateExchangeObject orderBook
  match order.side.book?, stateOrderBook with
  | none, _ => return some ()
  | some _, none => return none
  | some book, some _ =>
    let list? ← getOrderList orderBook book priceHash
    match ← withExchange orderBook fun e => e.getStateOrderObject orderId with
    | none => return none
    | some item =>
      let newAmount := item.data.quantity + amount
      withExchange orderBook fun e => e.withItem orderId fun item => ((), item.setVolume newAmount)
      match list? with
      | none => return none
      | some _ =>
        withExchange orderBook fun e => e.withList book priceHash fun l =>
          ((), (l.insertOrderItem orderId (bigToHash newAmount)).addVolume amount)
        return some ()

/-- `undo` of a journal entry. -/
def JournalEntry.undo : JournalEntry → StateOp (Option Unit)
  | .insertOrder orderBook _ order => do
    let _ ← Tomox.cancelOrder orderBook order
    return some ()
  | .cancelOrder orderBook orderId order => do
    insertOrderItem orderBook orderId order
    return some ()
  | .subAmountOrder orderBook orderId order amount => undoSubAmountOrder orderBook orderId order amount
  | .nonceChange hash prev => do
    setNonce hash prev
    return some ()
  | .priceChange hash prev => do
    setPrice hash prev
    return some ()

/-- The undo loop of `RevertToSnapshot`, over the entries newest first. -/
def undoAll : List JournalEntry → StateOp (Option Unit)
  | [] => return some ()
  | entry :: rest => do
    match ← entry.undo with
    | none => return none
    | some () => undoAll rest

/-- `Snapshot`. -/
def snapshot : StateOp Nat := fun s =>
  (s.nextRevisionId, { s with
    nextRevisionId := s.nextRevisionId + 1
    validRevisions := s.validRevisions ++ [⟨s.nextRevisionId, s.journal.length⟩] })

/-- `RevertToSnapshot`. `sort.Search` finds the first revision whose id is at least
`revid`; the ids are increasing, as `Snapshot` makes them. -/
def revertToSnapshot (revid : Nat) : StateOp (Option Unit) := do
  let s ← get
  let idx := s.validRevisions.findIdx (fun revision => decide (revid ≤ revision.id))
  match s.validRevisions[idx]? with
  | none => return none
  | some revision =>
    if revision.id ≠ revid then return none
    let undone ← undoAll (s.journal.drop revision.journalIndex).reverse
    match undone with
    | none => return none
    | some () =>
      modify fun s => { s with
        journal := s.journal.take revision.journalIndex
        validRevisions := s.validRevisions.take idx }
      return some ()

/-- Reverting a nonce change does not undo the object it created. `SetNonce` of an
address without an object calls `GetOrNewStateExchangeObject`, which makes one and
journals nothing; the undo sets the nonce back to zero on the object, so `Exist`
answers differently after the revert than before the snapshot. -/
theorem revert_keeps_created_object :
    Id.run (((do
        let before ← exist 7
        let id ← snapshot
        setNonce 7 1
        let _ ← revertToSnapshot id
        let after ← exist 7
        let nonce ← getNonce 7
        return (before, after, nonce)) : StateOp (Bool × Bool × Nat)).run'
      (TomoXStateDB.empty (.empty sizeHasher))) = (false, true, 0) := by
  decide +kernel

/-! ## Flushing the live objects -/

/-- `clearJournalAndRefund`. -/
def clearJournalAndRefund (s : TomoXStateDB) : TomoXStateDB := { s with journal := [], validRevisions := [] }

/-- `updateStateExchangeObject`: the object's record written to the main trie. -/
def updateStateExchangeObject (s : TomoXStateDB) (obj : StateExchange) : TomoXStateDB :=
  { s with trie := s.trie.insert obj.hash obj.data.roundTrip }

/-- One iteration of `Finalise`: a dirty object's tries updated and its record written;
the object stays dirty. -/
def finaliseObject (s : TomoXStateDB) (entry : Hash × StateExchange) : TomoXStateDB :=
  if s.stateExhangeObjectsDirty.contains entry.1 then
    let asks := entry.2.updateAsksRoot s.db
    let bids := asks.2.1.updateBidsRoot asks.1
    let e := bids.2.updateOrdersRoot bids.1
    updateStateExchangeObject { s with db := bids.1, stateExhangeObjects := s.stateExhangeObjects.insert entry.1 e } e
  else s

/-- `Finalise`. -/
def finalise (s : TomoXStateDB) : TomoXStateDB :=
  clearJournalAndRefund (s.stateExhangeObjects.entries.foldl finaliseObject s)

/-- `IntermediateRoot`: the root of the main trie after `Finalise`. -/
def intermediateRoot : StateOp Hash := fun s =>
  let s := finalise s
  (s.db.hasher.exchanges s.trie, s)

/-- The loop of `Commit`: each dirty object's tries committed and its record written,
and the object no longer dirty; the first error stops the loop (`true`). -/
def commitObjects (s : TomoXStateDB) : List (Hash × StateExchange) → TomoXStateDB × Bool
  | [] => (s, false)
  | entry :: rest =>
    if s.stateExhangeObjectsDirty.contains entry.1 then
      let store := fun (s : TomoXStateDB) (db : Database) (e : StateExchange) =>
        { s with db := db, stateExhangeObjects := s.stateExhangeObjects.insert entry.1 e }
      let asks := entry.2.commitAsksTrie s.db
      if asks.2.2 then (store s asks.1 asks.2.1, true)
      else
        let bids := asks.2.1.commitBidsTrie asks.1
        if bids.2.2 then (store s bids.1 bids.2.1, true)
        else
          let orders := bids.2.1.commitOrdersTrie bids.1
          if orders.2.2 then (store s orders.1 orders.2.1, true)
          else
            let s := updateStateExchangeObject (store s orders.1 orders.2.1) orders.2.1
            commitObjects { s with stateExhangeObjectsDirty := s.stateExhangeObjectsDirty.erase entry.1 } rest
    else commitObjects s rest

/-- `Commit`: the root of the committed main trie, or `none` on an error; the journal
is cleared in both cases. -/
def commit : StateOp (Option Hash) := fun s =>
  let committed := commitObjects s s.stateExhangeObjects.entries
  let s := committed.1
  if committed.2 then (none, clearJournalAndRefund s)
  else
    let root := s.db.hasher.exchanges s.trie
    (some root, clearJournalAndRefund { s with db := { s.db with exchanges := storeTrie s.db.exchanges root s.trie } })

/-- A level changed after `IntermediateRoot` is committed with its old volume. The
first insertion marks the level dirty and disarms its callback; `Finalise` writes the
level and clears the dirty set, and the second insertion, with the callback gone,
marks nothing. `Commit` then writes the price trie as `Finalise` left it, and the
state opened at the committed root sees the first order's volume only. -/
theorem commit_drops_level_after_intermediateRoot :
    let first : OrderItem :=
      { emptyOrder with quantity := 5, price := 10, userAddress := 1, side := .ask, hash := 11, orderID := 1 }
    let second : OrderItem :=
      { emptyOrder with quantity := 7, price := 10, userAddress := 2, side := .ask, hash := 12, orderID := 2 }
    let run := ((do
        insertOrderItem 99 (bigToHash 1) first
        let _ ← intermediateRoot
        insertOrderItem 99 (bigToHash 2) second
        let volume ← getVolume 99 10 .ask
        let root ← commit
        return (volume, root)) : StateOp (Int × Option Hash)).run (TomoXStateDB.empty (.empty sizeHasher))
    let reopened := run.1.2.bind fun root => TomoXStateDB.new root run.2.db
    run.1.1 = 12 ∧ reopened.map (fun s => Id.run ((getVolume 99 10 .ask).run' s)) = some 5 := by
  decide +kernel

/-- A hasher that tells levels apart by their volume, as the Keccak hash of a level's
RLP record does: the root of a price trie is its total volume plus 100, and the root
of the main trie the sum of its books' ask roots plus 300. -/
def volumeHasher : TrieHasher where
  amounts t := sizeHasher.amounts t
  orderLists t := if t.entries = [] then emptyRoot else bigToHash (t.values.foldl (fun acc l => acc + l.volume) 100)
  orders t := sizeHasher.orders t
  exchanges t := if t.entries = [] then emptyRoot else bigToHash (t.values.foldl (fun acc e => acc + e.askRoot.val) 300)

/-- The two insertions of `commit_drops_level_after_intermediateRoot`, with and without
`IntermediateRoot` between them: `Commit` returns the roots of the asks tries of volume
5 and 12. -/
theorem intermediateRoot_changes_commit_root :
    Id.run (((do
        insertOrderItem 99 (bigToHash 1)
          { emptyOrder with quantity := 5, price := 10, userAddress := 1, side := .ask, hash := 11, orderID := 1 }
        let _ ← intermediateRoot
        insertOrderItem 99 (bigToHash 2)
          { emptyOrder with quantity := 7, price := 10, userAddress := 2, side := .ask, hash := 12, orderID := 2 }
        commit) : StateOp (Option Hash)).run' (TomoXStateDB.empty (.empty volumeHasher))) = some 405 ∧
      Id.run (((do
        insertOrderItem 99 (bigToHash 1)
          { emptyOrder with quantity := 5, price := 10, userAddress := 1, side := .ask, hash := 11, orderID := 1 }
        insertOrderItem 99 (bigToHash 2)
          { emptyOrder with quantity := 7, price := 10, userAddress := 2, side := .ask, hash := 12, orderID := 2 }
        commit) : StateOp (Option Hash)).run' (TomoXStateDB.empty (.empty volumeHasher))) = some 412 := by
  decide +kernel

end TomoChain.Tomox
