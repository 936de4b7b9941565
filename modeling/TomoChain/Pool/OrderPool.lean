import Mathlib
import TomoChain.Pool.TxList
import TomoChain.Common.Types

set_option autoImplicit false

/-! The order transaction pool of `core/order_pool.go`: the pending and queued lists of
each account, the index `all` of every known transaction by hash, and the operations
that move transactions between them.

A transaction is read through `OrderTxFields`: its nonce, its hash, its sender
(`OrderSender`, recovered from the signature) and the checks that `validateTx` makes
before the nonce checks (the black list, the size limit, the signature and
`validateOrder` against the chain state), all of them functions of the transaction.
The order state and the managed pending state are read only through their nonces,
and `time.Now()` is the pool's clock `now`.

Go maps are iterated with `range` in key order. `prque` pops the spammer with the
longest list first, and equally long lists in key order; `sort.Sort` of the
heartbeats is taken as a stable sort. The journal, the event feed and the logs are
left out. -/
namespace TomoChain.Pool

open Lib

/-- `OrderPoolConfig`: the slot limits. -/
structure OrderPoolConfig where
  accountSlots : Nat
  globalSlots : Nat
  accountQueue : Nat
  globalQueue : Nat

/-- `DefaultOrderPoolConfig`. -/
def defaultOrderPoolConfig : OrderPoolConfig := ⟨16, 4096, 64, 1024⟩

/-- `common.LimitThresholdNonceInQueue`. -/
def limitThresholdNonceInQueue : Nat := 10

/-- The errors of the checks that `validateTx` makes before the nonces. -/
inductive OrderRejection where
  | blacklisted
  | oversizedData
  | invalidSender
  | invalidOrderQuantity
  | invalidOrderPrice
  | invalidOrderSide
  | invalidOrderType
  | invalidOrderStatus
  | invalidOrderHash
  | invalidCancelledOrder
  | invalidOrderUserAddress
  | invalidRelayer
  | invalidPair
  deriving DecidableEq, Repr

/-- The errors of `add`. -/
inductive PoolError where
  | knownTransaction (hash : Hash)
  | invalid (reason : OrderRejection)
  | nonceTooLow
  | nonceTooHigh
  | pendingNonceTooLow
  deriving DecidableEq, Repr

/-- What the pool reads of a transaction. -/
structure OrderTxFields (Tx : Type) where
  nonce : Tx → Nat
  hash : Tx → Hash
  sender : Tx → Address
  validate : Tx → Except OrderRejection Unit

/-- `OrderPool`. -/
structure OrderPool (Tx : Type) where
  pending : SortedMap Address (OrdertxList Tx)
  queue : SortedMap Address (OrdertxList Tx)
  beats : SortedMap Address Nat
  all : SortedMap Hash Tx
  locals : List Address
  currentNonce : Address → Nat
  pendingNonce : Address → Nat
  now : Nat

/-- `orderAccountSet.add`. -/
def addAccount (accounts : List Address) (addr : Address) : List Address :=
  if accounts.contains addr then accounts else accounts ++ [addr]

namespace OrderPool

variable {Tx : Type}

section Operations

variable (config : OrderPoolConfig) (fields : OrderTxFields Tx)

/-- `NewOrderPool` at a head whose order state has the nonces `nonces`. -/
def new (nonces : Address → Nat) : OrderPool Tx where
  pending := .empty
  queue := .empty
  beats := .empty
  all := .empty
  locals := []
  currentNonce := nonces
  pendingNonce := nonces
  now := 0

/-- `delete(pool.all, tx.Hash())` for each transaction. -/
def discard (pool : OrderPool Tx) (txs : List Tx) : OrderPool Tx :=
  { pool with all := txs.foldl (fun all tx => all.erase (fields.hash tx)) pool.all }

/-- The queued list of `addr` after a change in place: the map holds a pointer to
the list. -/
def setQueue (pool : OrderPool Tx) (addr : Address) (l : OrdertxList Tx) : OrderPool Tx :=
  { pool with queue := pool.queue.insert addr l }

/-- The pending list of `addr` after a change in place. -/
def setPending (pool : OrderPool Tx) (addr : Address) (l : OrdertxList Tx) : OrderPool Tx :=
  { pool with pending := pool.pending.insert addr l }

/-- `delete(pool.queue, addr)`. -/
def deleteQueue (pool : OrderPool Tx) (addr : Address) : OrderPool Tx :=
  { pool with queue := pool.queue.erase addr }

/-- `delete(pool.pending, addr)` and `delete(pool.beats, addr)`. -/
def deletePending (pool : OrderPool Tx) (addr : Address) : OrderPool Tx :=
  { pool with pending := pool.pending.erase addr, beats := pool.beats.erase addr }

section Fields

variable (pool : OrderPool Tx) (addr : Address) (l : OrdertxList Tx) (txs : List Tx)

@[simp] theorem setQueue_queue : (pool.setQueue addr l).queue = pool.queue.insert addr l := rfl
@[simp] theorem setQueue_pending : (pool.setQueue addr l).pending = pool.pending := rfl
@[simp] theorem setQueue_all : (pool.setQueue addr l).all = pool.all := rfl
@[simp] theorem setQueue_locals : (pool.setQueue addr l).locals = pool.locals := rfl
@[simp] theorem setQueue_currentNonce : (pool.setQueue addr l).currentNonce = pool.currentNonce := rfl
@[simp] theorem setQueue_pendingNonce : (pool.setQueue addr l).pendingNonce = pool.pendingNonce := rfl
@[simp] theorem setPending_pending : (pool.setPending addr l).pending = pool.pending.insert addr l := rfl
@[simp] theorem setPending_queue : (pool.setPending addr l).queue = pool.queue := rfl
@[simp] theorem setPending_all : (pool.setPending addr l).all = pool.all := rfl
@[simp] theorem setPending_currentNonce : (pool.setPending addr l).currentNonce = pool.currentNonce := rfl
@[simp] theorem deleteQueue_queue : (pool.deleteQueue addr).queue = pool.queue.erase addr := rfl
@[simp] theorem deleteQueue_pending : (pool.deleteQueue addr).pending = pool.pending := rfl
@[simp] theorem deleteQueue_all : (pool.deleteQueue addr).all = pool.all := rfl
@[simp] theorem deletePending_pending : (pool.deletePending addr).pending = pool.pending.erase addr := rfl
@[simp] theorem deletePending_queue : (pool.deletePending addr).queue = pool.queue := rfl
@[simp] theorem deletePending_all : (pool.deletePending addr).all = pool.all := rfl
@[simp] theorem discard_pending : (pool.discard fields txs).pending = pool.pending := rfl
@[simp] theorem discard_queue : (pool.discard fields txs).queue = pool.queue := rfl
@[simp] theorem discard_locals : (pool.discard fields txs).locals = pool.locals := rfl
@[simp] theorem discard_currentNonce : (pool.discard fields txs).currentNonce = pool.currentNonce := rfl
@[simp] theorem discard_pendingNonce : (pool.discard fields txs).pendingNonce = pool.pendingNonce := rfl

end Fields

/-- The pending nonce of `addr` lowered to `n` if it is above. -/
def lowerPendingNonce (pool : OrderPool Tx) (addr : Address) (n : Nat) : OrderPool Tx :=
  if pool.pendingNonce addr > n then { pool with pendingNonce := Function.update pool.pendingNonce addr n }
  else pool

/-- The length of the pending list of `addr`. -/
def pendingLen (pool : OrderPool Tx) (addr : Address) : Nat :=
  ((pool.pending.get? addr).map OrdertxList.len).getD 0

/-- `validateTx`. -/
def validateTx (pool : OrderPool Tx) (tx : Tx) : Except PoolError Unit :=
  match fields.validate tx with
  | .error reason => .error (.invalid reason)
  | .ok () =>
    let addr := fields.sender tx
    if pool.currentNonce addr > fields.nonce tx then .error .nonceTooLow
    else if pool.pendingNonce addr + limitThresholdNonceInQueue < fields.nonce tx then .error .nonceTooHigh
    else .ok ()

/-- `enqueueTx`. -/
def enqueueTx (pool : OrderPool Tx) (hash : Hash) (tx : Tx) : Except PoolError Bool × OrderPool Tx :=
  let addr := fields.sender tx
  let added := ((pool.queue.get? addr).getD (.new false)).add fields.nonce tx
  let pool := pool.setQueue addr added.2
  if !added.1.1 then (.error .pendingNonceTooLow, pool) else
  let all := pool.all.eraseOld fields.hash added.1.2
  (.ok added.1.2.isSome, { pool with all := all.insert hash tx })

/-- `promoteTx`. -/
def promoteTx (pool : OrderPool Tx) (addr : Address) (hash : Hash) (tx : Tx) : OrderPool Tx :=
  let added := ((pool.pending.get? addr).getD (.new true)).add fields.nonce tx
  let pool := pool.setPending addr added.2
  if !added.1.1 then { pool with all := pool.all.erase hash } else
  let all := pool.all.eraseOld fields.hash added.1.2
  -- the failsafe for direct pending inserts
  let all := if (all.get? hash).isNone then all.insert hash tx else all
  { pool with
    all
    beats := pool.beats.insert addr pool.now
    pendingNonce := Function.update pool.pendingNonce addr (fields.nonce tx + 1) }

/-- `promoteTx` for each transaction. -/
def promoteAll (pool : OrderPool Tx) (addr : Address) (txs : List Tx) : OrderPool Tx :=
  txs.foldl (fun pool tx => pool.promoteTx fields addr (fields.hash tx) tx) pool

/-- `add` for a transaction that replaces a pending one of the same nonce. -/
def replacePending (pool : OrderPool Tx) (tx : Tx) : Except PoolError Bool × OrderPool Tx :=
  let addr := fields.sender tx
  let added := ((pool.pending.get? addr).getD (.new true)).add fields.nonce tx
  let pool := pool.setPending addr added.2
  if !added.1.1 then (.error .pendingNonceTooLow, pool) else
  let all := pool.all.eraseOld fields.hash added.1.2
  (.ok added.1.2.isSome, { pool with all := all.insert (fields.hash tx) tx })

/-- `add` for a transaction pushed into the queue. -/
def addToQueue (pool : OrderPool Tx) (tx : Tx) (isLocal : Bool) : Except PoolError Bool × OrderPool Tx :=
  let enqueued := pool.enqueueTx fields (fields.hash tx) tx
  match enqueued.1 with
  | .error e => (.error e, enqueued.2)
  | .ok replace =>
    (.ok replace,
      if isLocal then { enqueued.2 with locals := addAccount enqueued.2.locals (fields.sender tx) } else enqueued.2)

/-- `add`. -/
def add (pool : OrderPool Tx) (tx : Tx) (isLocal : Bool) : Except PoolError Bool × OrderPool Tx :=
  let hash := fields.hash tx
  if (pool.all.get? hash).isSome then (.error (.knownTransaction hash), pool) else
  match pool.validateTx fields tx with
  | .error e => (.error e, pool)
  | .ok () =>
    if ((pool.pending.get? (fields.sender tx)).map (·.overlaps fields.nonce tx)).getD false then
      pool.replacePending fields tx
    else pool.addToQueue fields tx isLocal

/-- `enqueueTx` for each transaction, the results dropped. -/
def enqueueAll (pool : OrderPool Tx) (txs : List Tx) : OrderPool Tx :=
  txs.foldl (fun pool tx => (pool.enqueueTx fields (fields.hash tx) tx).2) pool

/-- The end of `removeTx` for a transaction of the future queue. -/
def removeQueued (pool : OrderPool Tx) (tx : Tx) : OrderPool Tx :=
  let addr := fields.sender tx
  match pool.queue.get? addr with
  | none => pool
  | some future =>
    let removed := future.remove fields.nonce tx
    if removed.2.empty then pool.deleteQueue addr else pool.setQueue addr removed.2

/-- `removeTx`. -/
def removeTx (pool : OrderPool Tx) (hash : Hash) : OrderPool Tx :=
  match pool.all.get? hash with
  | none => pool
  | some tx =>
    let addr := fields.sender tx
    let pool := { pool with all := pool.all.erase hash }
    match pool.pending.get? addr with
    | none => pool.removeQueued fields tx
    | some pending =>
      let removed := pending.remove fields.nonce tx
      if removed.1.1 then
        let pool := if removed.2.empty then pool.deletePending addr else pool.setPending addr removed.2
        -- the invalidated transactions are postponed, then the nonce is reset
        (pool.enqueueAll fields removed.1.2).lowerPendingNonce addr (fields.nonce tx)
      else pool.removeQueued fields tx

/-- `removeTx` for each transaction. -/
def removeAll (pool : OrderPool Tx) (txs : List Tx) : OrderPool Tx :=
  txs.foldl (fun pool tx => pool.removeTx fields (fields.hash tx)) pool

/-- The body of the loop of `promoteExecutables` for one account. -/
def promoteAccount (pool : OrderPool Tx) (addr : Address) : OrderPool Tx :=
  match pool.queue.get? addr with
  | none => pool
  | some list =>
    -- drop the transactions below the account's nonce
    let forwarded := list.forward (pool.currentNonce addr)
    let pool := (pool.setQueue addr forwarded.2).discard fields forwarded.1
    -- promote the executable ones
    let readied := forwarded.2.ready (pool.pendingNonce addr)
    let pool := (pool.setQueue addr readied.2).promoteAll fields addr readied.1
    -- drop the ones over the limit of a remote account
    let capped := if pool.locals.contains addr then ([], readied.2) else readied.2.cap config.accountQueue
    let pool := (pool.setQueue addr capped.2).discard fields capped.1
    if capped.2.empty then pool.deleteQueue addr else pool

/-- One transaction capped off the back of the pending list of `addr`, dropped from
`all`, with the pending nonce lowered to it. -/
def capPendingOne (pool : OrderPool Tx) (addr : Address) : OrderPool Tx :=
  match pool.pending.get? addr with
  | none => pool
  | some list =>
    let capped := list.cap (list.len - 1)
    let pool := pool.setPending addr capped.2
    capped.1.foldl (fun pool tx => (pool.discard fields [tx]).lowerPendingNonce addr (fields.nonce tx)) pool

/-- One round of the fairness loops: a transaction capped from each account, and the
pending count lowered by one for each. -/
def capRound (pool : OrderPool Tx) (accounts : List Address) (pending : Nat) : OrderPool Tx × Nat :=
  accounts.foldl (fun state addr => (state.1.capPendingOne fields addr, state.2 - 1)) (pool, pending)

/-- The equalisation loop: every offender but the last loses a transaction while the
pool is over its slots and the second-last offender is above `threshold`. -/
def equalizeLoop (pool : OrderPool Tx) (offenders : List Address) (threshold : Nat) :
    Nat → Nat → OrderPool Tx × Nat
  | 0, pending => (pool, pending)
  | fuel + 1, pending =>
    match offenders.dropLast.getLast? with
    | none => (pool, pending)
    | some second =>
      if pending > config.globalSlots ∧ pool.pendingLen second > threshold then
        let round := pool.capRound fields offenders.dropLast pending
        equalizeLoop round.1 offenders threshold fuel round.2
      else (pool, pending)

/-- The loop over the spammers, longest list first. -/
def equalize (pool : OrderPool Tx) : List Address → List Address → Nat → OrderPool Tx × List Address × Nat
  | [], offenders, pending => (pool, offenders, pending)
  | offender :: spammers, offenders, pending =>
    if pending > config.globalSlots then
      let offenders := offenders ++ [offender]
      if offenders.length > 1 then
        let threshold := pool.pendingLen offender
        -- each round shortens the second-last offender's list by one
        let fuel := (offenders.dropLast.getLast?.map pool.pendingLen).getD 0
        let equalized := equalizeLoop config fields pool offenders threshold fuel pending
        equalize equalized.1 spammers offenders equalized.2
      else equalize pool spammers offenders pending
    else (pool, offenders, pending)

/-- The loop that reduces all offenders to the account slots while the pool is over
its slots. -/
def reduceLoop (pool : OrderPool Tx) (offenders : List Address) : Nat → Nat → OrderPool Tx × Nat
  | 0, pending => (pool, pending)
  | fuel + 1, pending =>
    match offenders.getLast? with
    | none => (pool, pending)
    | some last =>
      if pending > config.globalSlots ∧ pool.pendingLen last > config.accountSlots then
        let round := pool.capRound fields offenders pending
        reduceLoop round.1 offenders fuel round.2
      else (pool, pending)

/-- The number of pending transactions. -/
def pendingCount (pool : OrderPool Tx) : Nat := (pool.pending.values.map OrdertxList.len).sum

/-- The number of queued transactions. -/
def queuedCount (pool : OrderPool Tx) : Nat := (pool.queue.values.map OrdertxList.len).sum

/-- The spammers: the remote accounts with more pending transactions than their slots,
longest list first. -/
def spammers (pool : OrderPool Tx) : List Address :=
  let heavy := pool.pending.entries.filter fun entry =>
    !pool.locals.contains entry.1 && decide (entry.2.len > config.accountSlots)
  (heavy.insertionSort fun a b => b.2.len ≤ a.2.len).map Prod.fst

/-- The part of `promoteExecutables` that equalises the pending allowances. -/
def capPending (pool : OrderPool Tx) : OrderPool Tx :=
  let pending := pool.pendingCount
  if pending > config.globalSlots then
    let equalized := equalize config fields pool (pool.spammers config) [] pending
    let offenders := equalized.2.1
    if equalized.2.2 > config.globalSlots ∧ offenders.length > 0 then
      let fuel := (offenders.getLast?.map equalized.1.pendingLen).getD 0
      (reduceLoop config fields equalized.1 offenders fuel equalized.2.2).1
    else equalized.1
  else pool

/-- The loop that drops queued transactions of the accounts with the latest heartbeat
first, until `drop` transactions are gone. -/
def dropQueued (pool : OrderPool Tx) : List Address → Nat → OrderPool Tx
  | [], _ => pool
  | addr :: addresses, drop =>
    if drop > 0 then
      match pool.queue.get? addr with
      | none => dropQueued pool addresses drop
      | some list =>
        let flattened := list.flatten fields.nonce
        let pool := pool.setQueue addr flattened.2
        if list.len ≤ drop then dropQueued (pool.removeAll fields flattened.1) addresses (drop - list.len)
        else dropQueued (pool.removeAll fields (flattened.1.reverse.take drop)) addresses 0
    else pool

/-- The part of `promoteExecutables` that enforces the global queue limit. -/
def capQueued (pool : OrderPool Tx) : OrderPool Tx :=
  let queued := pool.queuedCount
  if queued > config.globalQueue then
    let remote := pool.queue.keys.filter fun addr => !pool.locals.contains addr
    let addresses := remote.map fun addr => (addr, (pool.beats.get? addr).getD 0)
    let byHeartbeat := addresses.insertionSort fun a b => a.2 ≤ b.2
    pool.dropQueued fields (byHeartbeat.reverse.map Prod.fst) (queued - config.globalQueue)
  else pool

/-- `promoteExecutables`; `none` stands for the nil slice: every queued account. -/
def promoteExecutables (pool : OrderPool Tx) (accounts : Option (List Address)) : OrderPool Tx :=
  let accounts := accounts.getD pool.queue.keys
  let pool := accounts.foldl (promoteAccount config fields) pool
  (pool.capPending config fields).capQueued config fields

/-- The body of the loop of `demoteUnexecutables` for one account. -/
def demoteAccount (pool : OrderPool Tx) (addr : Address) : OrderPool Tx :=
  match pool.pending.get? addr with
  | none => pool
  | some list =>
    let n := pool.currentNonce addr
    let forwarded := list.forward n
    let pool := (pool.setPending addr forwarded.2).discard fields forwarded.1
    -- a gap in front postpones every transaction
    let postponed := if forwarded.2.len > 0 ∧ (forwarded.2.txs.get n).isNone then forwarded.2.cap 0
      else ([], forwarded.2)
    let pool := (pool.setPending addr postponed.2).enqueueAll fields postponed.1
    if postponed.2.empty then pool.deletePending addr else pool

/-- `demoteUnexecutables`. -/
def demoteUnexecutables (pool : OrderPool Tx) : OrderPool Tx :=
  pool.pending.keys.foldl (demoteAccount fields) pool

/-- `Flatten` of the pending list of `addr`, its cache written back. -/
def flattenPending (pool : OrderPool Tx) (addr : Address) : List Tx × OrderPool Tx :=
  match pool.pending.get? addr with
  | none => ([], pool)
  | some list =>
    let flattened := list.flatten fields.nonce
    (flattened.1, pool.setPending addr flattened.2)

/-- `Pending`: the pending transactions of each account. -/
def pendingTxs (pool : OrderPool Tx) : List (Address × List Tx) × OrderPool Tx :=
  pool.pending.keys.foldl
    (fun state addr =>
      let flattened := state.2.flattenPending fields addr
      (state.1 ++ [(addr, flattened.1)], flattened.2))
    ([], pool)

/-- `reset` to a head whose order state has the nonces `nonces`. -/
def reset (pool : OrderPool Tx) (nonces : Address → Nat) : OrderPool Tx :=
  let pool := { pool with currentNonce := nonces, pendingNonce := nonces }.demoteUnexecutables fields
  let pool := pool.pending.keys.foldl
    (fun pool addr =>
      let flattened := pool.flattenPending fields addr
      -- the pending nonce is set after the last pending transaction
      match flattened.1.getLast? with
      | some last =>
        { flattened.2 with pendingNonce := Function.update flattened.2.pendingNonce addr (fields.nonce last + 1) }
      | none => flattened.2)
    pool
  pool.promoteExecutables config fields none

/-- `addTx`: the transaction added, and its account promoted unless it replaced one. -/
def addTx (pool : OrderPool Tx) (tx : Tx) (isLocal : Bool) : Except PoolError Unit × OrderPool Tx :=
  let added := pool.add fields tx isLocal
  match added.1 with
  | .error e => (.error e, added.2)
  | .ok replace =>
    (.ok (), if replace then added.2 else added.2.promoteExecutables config fields (some [fields.sender tx]))

end Operations

end OrderPool

/-- What can happen to the pool: a call of one of its operations, or a change of the
nonces and the clock it reads. -/
inductive PoolAction (Tx : Type) where
  | add (tx : Tx) (isLocal : Bool)
  | addTx (tx : Tx) (isLocal : Bool)
  | removeTx (hash : Hash)
  | promoteExecutables (accounts : Option (List Address))
  | demoteUnexecutables
  | pending
  | reset (nonces : Address → Nat)
  | setNonces (current pending : Address → Nat)
  | tick (now : Nat)

namespace OrderPool

variable {Tx : Type} (config : OrderPoolConfig) (fields : OrderTxFields Tx)

/-- One action on the pool. -/
def step (pool : OrderPool Tx) : PoolAction Tx → OrderPool Tx
  | .add tx isLocal => (pool.add fields tx isLocal).2
  | .addTx tx isLocal => (pool.addTx config fields tx isLocal).2
  | .removeTx hash => pool.removeTx fields hash
  | .promoteExecutables accounts => pool.promoteExecutables config fields accounts
  | .demoteUnexecutables => pool.demoteUnexecutables fields
  | .pending => (pool.pendingTxs fields).2
  | .reset nonces => pool.reset config fields nonces
  | .setNonces current pending => { pool with currentNonce := current, pendingNonce := pending }
  | .tick now => { pool with now }

/-- A run of actions. -/
def run (pool : OrderPool Tx) (actions : List (PoolAction Tx)) : OrderPool Tx :=
  actions.foldl (step config fields) pool

end OrderPool

end TomoChain.Pool
