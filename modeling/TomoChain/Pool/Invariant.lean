import Mathlib
import TomoChain.Pool.OrderPool

set_option autoImplicit false

/-! The bookkeeping invariant of the order pool. `all` indexes by hash exactly the
transactions that the pending and queued lists hold; every list is valid, of its
side's strictness, and holds only transactions of its own account; and no account
holds a nonce in both its pending and its queued list.

Inside an operation some transactions have left a list and are not yet back in one
or out of `all`: `Consistent pool inFlight` lets `all` index those too. Each step
that moves transactions is one lemma: a list operation that removes transactions
puts them in flight, `discard` and `enqueueTx`/`promoteTx` take them out of flight.
Every operation of the pool is a composition of such steps. -/
namespace TomoChain.Pool

open Lib
open scoped List

variable {Tx : Type}

/-! ## The transactions the lists hold -/

/-- The transactions held by the lists of a map of accounts. -/
def heldIn (lists : SortedMap Address (OrdertxList Tx)) : List Tx := lists.values.flatMap OrdertxList.held

/-- The transactions held at one account. -/
def slotOf (lists : SortedMap Address (OrdertxList Tx)) (addr : Address) : List Tx :=
  ((lists.get? addr).map OrdertxList.held).getD []

theorem heldIn_perm_slotOf (lists : SortedMap Address (OrdertxList Tx)) (addr : Address) :
    (heldIn lists).Perm (slotOf lists addr ++ heldIn (lists.erase addr)) := by
  have split := (lists.values_perm_get? addr).flatMap_right OrdertxList.held
  cases found : lists.get? addr with
  | none => simpa [heldIn, slotOf, found] using split
  | some l => simpa [heldIn, slotOf, found] using split

theorem heldIn_insert (lists : SortedMap Address (OrdertxList Tx)) (addr : Address) (l : OrdertxList Tx) :
    (heldIn (lists.insert addr l)).Perm (l.held ++ heldIn (lists.erase addr)) := by
  have split := (lists.values_insert_perm addr l).flatMap_right OrdertxList.held
  simpa [heldIn] using split

@[simp] theorem heldIn_empty : heldIn (SortedMap.empty : SortedMap Address (OrdertxList Tx)) = [] := rfl

/-- Replacing the list at `addr` by `l` trades the old list's transactions for `l`'s. -/
theorem heldIn_insert_perm (lists : SortedMap Address (OrdertxList Tx)) (addr : Address) (l : OrdertxList Tx) :
    (heldIn (lists.insert addr l) ++ slotOf lists addr).Perm (l.held ++ heldIn lists) := by
  have after := heldIn_insert lists addr l
  have before := heldIn_perm_slotOf lists addr
  calc (heldIn (lists.insert addr l) ++ slotOf lists addr).Perm
        ((l.held ++ heldIn (lists.erase addr)) ++ slotOf lists addr) := after.append_right _
    _ = l.held ++ (heldIn (lists.erase addr) ++ slotOf lists addr) := List.append_assoc _ _ _
    _ ~ l.held ++ heldIn lists := (List.perm_append_comm.trans before.symm).append_left _

theorem heldIn_erase_perm (lists : SortedMap Address (OrdertxList Tx)) (addr : Address) :
    (heldIn (lists.erase addr) ++ slotOf lists addr).Perm (heldIn lists) :=
  List.perm_append_comm.trans (heldIn_perm_slotOf lists addr).symm

theorem mem_heldIn {lists : SortedMap Address (OrdertxList Tx)} {tx : Tx} (member : tx ∈ heldIn lists) :
    ∃ addr l, lists.get? addr = some l ∧ tx ∈ l.held := by
  obtain ⟨l, inValues, inList⟩ := List.mem_flatMap.mp member
  obtain ⟨entry, stored, rfl⟩ := List.mem_map.mp inValues
  exact ⟨entry.1, entry.2, (SortedMap.get?_eq_some_iff _ _ _).mpr stored, inList⟩

theorem slotOf_of_get? {lists : SortedMap Address (OrdertxList Tx)} {addr : Address} {l : OrdertxList Tx}
    (found : lists.get? addr = some l) : slotOf lists addr = l.held := by
  simp [slotOf, found]

theorem slotOf_eq_held_getD (lists : SortedMap Address (OrdertxList Tx)) (addr : Address) (strict : Bool) :
    slotOf lists addr = ((lists.get? addr).getD (.new strict)).held := by
  cases found : lists.get? addr <;> simp [slotOf, found]

/-! ## The two sides of the pool -/

/-- The pending lists, which are strict, and the queued lists, which are not. -/
inductive Side where
  | pending
  | queue
  deriving DecidableEq

/-- The strictness of the lists of a side. -/
def Side.strict : Side → Bool
  | .pending => true
  | .queue => false

/-- The other side. -/
def Side.other : Side → Side
  | .pending => .queue
  | .queue => .pending

namespace OrderPool

/-- The lists of one side. -/
def lists (pool : OrderPool Tx) : Side → SortedMap Address (OrdertxList Tx)
  | .pending => pool.pending
  | .queue => pool.queue

/-- The pool with the lists of one side replaced. -/
def setLists (pool : OrderPool Tx) : Side → SortedMap Address (OrdertxList Tx) → OrderPool Tx
  | .pending, lists => { pool with pending := lists }
  | .queue, lists => { pool with queue := lists }

/-- The transactions the pool's lists hold. -/
def held (pool : OrderPool Tx) : List Tx := heldIn pool.pending ++ heldIn pool.queue

@[simp] theorem lists_setLists (pool : OrderPool Tx) (side : Side) (lists : SortedMap Address (OrdertxList Tx)) :
    (pool.setLists side lists).lists side = lists := by
  cases side <;> rfl

@[simp] theorem lists_setLists_other (pool : OrderPool Tx) (side : Side)
    (lists : SortedMap Address (OrdertxList Tx)) : (pool.setLists side lists).lists side.other = pool.lists side.other := by
  cases side <;> rfl

@[simp] theorem all_setLists (pool : OrderPool Tx) (side : Side) (lists : SortedMap Address (OrdertxList Tx)) :
    (pool.setLists side lists).all = pool.all := by
  cases side <;> rfl

theorem held_perm_side (pool : OrderPool Tx) (side : Side) :
    pool.held.Perm (heldIn (pool.lists side) ++ heldIn (pool.lists side.other)) := by
  cases side
  · rfl
  · exact List.perm_append_comm

/-- Replacing a list of one side trades its transactions for the new list's. -/
theorem held_setLists_insert (pool : OrderPool Tx) (side : Side) (addr : Address) (l : OrdertxList Tx) :
    ((pool.setLists side ((pool.lists side).insert addr l)).held ++ slotOf (pool.lists side) addr).Perm
      (l.held ++ pool.held) := by
  have after := held_perm_side (pool.setLists side ((pool.lists side).insert addr l)) side
  rw [lists_setLists, lists_setLists_other] at after
  have swapped := heldIn_insert_perm (pool.lists side) addr l
  calc _ ~ (heldIn ((pool.lists side).insert addr l) ++ heldIn (pool.lists side.other)) ++
          slotOf (pool.lists side) addr := after.append_right _
    _ ~ (heldIn ((pool.lists side).insert addr l) ++ slotOf (pool.lists side) addr) ++
          heldIn (pool.lists side.other) := by
        rw [List.append_assoc, List.append_assoc]
        exact List.Perm.append_left _ List.perm_append_comm
    _ ~ (l.held ++ heldIn (pool.lists side)) ++ heldIn (pool.lists side.other) := swapped.append_right _
    _ ~ l.held ++ pool.held := by
        rw [List.append_assoc]
        exact List.Perm.append_left _ (held_perm_side pool side).symm

theorem held_setLists_erase (pool : OrderPool Tx) (side : Side) (addr : Address) :
    ((pool.setLists side ((pool.lists side).erase addr)).held ++ slotOf (pool.lists side) addr).Perm pool.held := by
  have after := held_perm_side (pool.setLists side ((pool.lists side).erase addr)) side
  rw [lists_setLists, lists_setLists_other] at after
  calc _ ~ (heldIn ((pool.lists side).erase addr) ++ heldIn (pool.lists side.other)) ++
          slotOf (pool.lists side) addr := after.append_right _
    _ ~ (heldIn ((pool.lists side).erase addr) ++ slotOf (pool.lists side) addr) ++
          heldIn (pool.lists side.other) := by
        rw [List.append_assoc, List.append_assoc]
        exact List.Perm.append_left _ List.perm_append_comm
    _ ~ heldIn (pool.lists side) ++ heldIn (pool.lists side.other) :=
        (heldIn_erase_perm (pool.lists side) addr).append_right _
    _ ~ pool.held := (held_perm_side pool side).symm

end OrderPool

theorem Side.other_other (side : Side) : side.other.other = side := by
  cases side <;> rfl

theorem Side.eq_or_eq_other (side other : Side) : side = other ∨ side = other.other := by
  cases side <;> cases other <;> simp [Side.other]

/-! ## The invariant -/

/-- The list of `addr` holds a transaction of nonce `n`. -/
def Occupied (lists : SortedMap Address (OrdertxList Tx)) (addr : Address) (n : Nat) : Prop :=
  ∃ l, lists.get? addr = some l ∧ (l.txs.get n).isSome

theorem occupied_insert_self (lists : SortedMap Address (OrdertxList Tx)) (addr : Address) (l : OrdertxList Tx)
    (n : Nat) : Occupied (lists.insert addr l) addr n ↔ (l.txs.get n).isSome := by
  simp [Occupied]

theorem occupied_insert_of_ne (lists : SortedMap Address (OrdertxList Tx)) {addr other : Address}
    (l : OrdertxList Tx) (different : addr ≠ other) (n : Nat) :
    Occupied (lists.insert addr l) other n ↔ Occupied lists other n := by
  simp [Occupied, different]

theorem occupied_erase (lists : SortedMap Address (OrdertxList Tx)) (addr other : Address) (n : Nat)
    (occupied : Occupied (lists.erase addr) other n) : Occupied lists other n := by
  obtain ⟨l, found, present⟩ := occupied
  rw [SortedMap.get?_erase] at found
  split at found
  · cases found
  · exact ⟨l, found, present⟩

section Invariant

variable (fields : OrderTxFields Tx)

/-- Every list of `lists` is valid, has the strictness of `side`, and holds only
transactions of its own account. -/
def SlotsValid (side : Side) (lists : SortedMap Address (OrdertxList Tx)) : Prop :=
  ∀ addr l, lists.get? addr = some l →
    l.Valid fields.nonce ∧ l.strict = side.strict ∧ ∀ tx ∈ l.held, fields.sender tx = addr

/-- The lists of both sides are valid, and no nonce of an account is held on both sides. -/
structure Shaped (pool : OrderPool Tx) : Prop where
  slots : ∀ side, SlotsValid fields side (pool.lists side)
  apart : ∀ side addr n, Occupied (pool.lists side) addr n → ¬ Occupied (pool.lists side.other) addr n

/-- `all` indexes by hash the held transactions and those in flight. -/
structure Consistent (pool : OrderPool Tx) (inFlight : List Tx) : Prop where
  shaped : Shaped fields pool
  tracked : SortedMap.Indexes fields.hash pool.all (pool.held ++ inFlight)

/-- The pool's invariant: nothing in flight. -/
def PoolInv (pool : OrderPool Tx) : Prop := Consistent fields pool []

variable {fields}

theorem lists_congr {pool pool' : OrderPool Tx} (pending : pool'.pending = pool.pending)
    (queue : pool'.queue = pool.queue) (side : Side) : pool'.lists side = pool.lists side := by
  cases side
  · exact pending
  · exact queue

theorem Shaped.congr {pool pool' : OrderPool Tx} (shaped : Shaped fields pool) (pending : pool'.pending = pool.pending)
    (queue : pool'.queue = pool.queue) : Shaped fields pool' := by
  refine ⟨fun side => ?_, fun side => ?_⟩
  · rw [lists_congr pending queue]
    exact shaped.slots side
  · rw [lists_congr pending queue, lists_congr pending queue]
    exact shaped.apart side

theorem Consistent.congr {pool pool' : OrderPool Tx} {inFlight : List Tx} (consistent : Consistent fields pool inFlight)
    (pending : pool'.pending = pool.pending) (queue : pool'.queue = pool.queue) (all : pool'.all = pool.all) :
    Consistent fields pool' inFlight := by
  refine ⟨consistent.shaped.congr pending queue, ?_⟩
  have same : pool'.held = pool.held := by rw [OrderPool.held, OrderPool.held, pending, queue]
  rw [all, same]
  exact consistent.tracked

theorem Consistent.perm {pool : OrderPool Tx} {inFlight inFlight' : List Tx} (consistent : Consistent fields pool inFlight)
    (perm : inFlight.Perm inFlight') : Consistent fields pool inFlight' :=
  ⟨consistent.shaped, consistent.tracked.perm_right (perm.append_left _)⟩

/-- A list put at `addr` on one side keeps the pool's shape when it is valid, filed
under `addr`, and holds no nonce that the other side holds. -/
theorem Shaped.setLists_insert {pool : OrderPool Tx} (shaped : Shaped fields pool) {side : Side} {addr : Address}
    {l : OrdertxList Tx} (valid : l.Valid fields.nonce) (strict : l.strict = side.strict)
    (owner : ∀ tx ∈ l.held, fields.sender tx = addr)
    (free : ∀ n, (l.txs.get n).isSome → ¬ Occupied (pool.lists side.other) addr n) :
    Shaped fields (pool.setLists side ((pool.lists side).insert addr l)) := by
  refine ⟨fun side' => ?_, fun side' a n here there => ?_⟩
  · rcases Side.eq_or_eq_other side' side with rfl | rfl
    · intro a l' found
      rw [OrderPool.lists_setLists, SortedMap.get?_insert] at found
      split at found
      · next same =>
        cases found
        subst same
        exact ⟨valid, strict, owner⟩
      · exact shaped.slots side' a l' found
    · rw [OrderPool.lists_setLists_other]
      exact shaped.slots side.other
  · rcases Side.eq_or_eq_other side' side with rfl | rfl
    · rw [OrderPool.lists_setLists] at here
      rw [OrderPool.lists_setLists_other] at there
      by_cases same : addr = a
      · subst same
        exact free n ((occupied_insert_self _ _ _ _).mp here) there
      · exact shaped.apart side' a n ((occupied_insert_of_ne _ _ same n).mp here) there
    · rw [OrderPool.lists_setLists_other] at here
      rw [Side.other_other, OrderPool.lists_setLists] at there
      by_cases same : addr = a
      · subst same
        have apart := free n ((occupied_insert_self _ _ _ _).mp there)
        exact apart here
      · have back := shaped.apart side.other a n here
        rw [Side.other_other] at back
        exact back ((occupied_insert_of_ne _ _ same n).mp there)

theorem Shaped.setLists_erase {pool : OrderPool Tx} (shaped : Shaped fields pool) (side : Side) (addr : Address) :
    Shaped fields (pool.setLists side ((pool.lists side).erase addr)) := by
  refine ⟨fun side' => ?_, fun side' a n here there => ?_⟩
  · rcases Side.eq_or_eq_other side' side with rfl | rfl
    · intro a l' found
      rw [OrderPool.lists_setLists, SortedMap.get?_erase] at found
      split at found
      · cases found
      · exact shaped.slots side' a l' found
    · rw [OrderPool.lists_setLists_other]
      exact shaped.slots side.other
  · rcases Side.eq_or_eq_other side' side with rfl | rfl
    · rw [OrderPool.lists_setLists] at here
      rw [OrderPool.lists_setLists_other] at there
      exact shaped.apart side' a n (occupied_erase _ _ _ _ here) there
    · rw [OrderPool.lists_setLists_other] at here
      rw [Side.other_other, OrderPool.lists_setLists] at there
      have back := shaped.apart side.other a n here
      rw [Side.other_other] at back
      exact back (occupied_erase _ _ _ _ there)

/-- A list operation on the list of `addr` takes the removed transactions out of the
held ones. -/
theorem held_replace {nonce : Tx → Nat} {pool : OrderPool Tx} (side : Side) {addr : Address}
    {l l' : OrdertxList Tx} {removed : List Tx} (found : (pool.lists side).get? addr = some l)
    (removes : l.Removes nonce l' removed) :
    ((pool.setLists side ((pool.lists side).insert addr l')).held ++ removed).Perm pool.held := by
  set held' := (pool.setLists side ((pool.lists side).insert addr l')).held
  have traded : (held' ++ l.held).Perm (l'.held ++ pool.held) := by
    have swapped := OrderPool.held_setLists_insert pool side addr l'
    rwa [slotOf_of_get? found] at swapped
  have expanded : (held' ++ (l'.held ++ removed)).Perm (l'.held ++ pool.held) :=
    (removes.held_perm.symm.append_left _).trans traded
  have moved : (held' ++ (l'.held ++ removed)).Perm (l'.held ++ (held' ++ removed)) := by
    rw [← List.append_assoc, ← List.append_assoc]
    exact List.perm_append_comm.append_right _
  exact (List.perm_append_left_iff _).mp (moved.symm.trans expanded)

/-- The same when the operation empties the list, which is then deleted. -/
theorem held_replace_empty {nonce : Tx → Nat} {pool : OrderPool Tx} (side : Side) {addr : Address}
    {l l' : OrdertxList Tx} {removed : List Tx} (found : (pool.lists side).get? addr = some l)
    (removes : l.Removes nonce l' removed) (empty : l'.held = []) :
    ((pool.setLists side ((pool.lists side).erase addr)).held ++ removed).Perm pool.held := by
  have erased := OrderPool.held_setLists_erase pool side addr
  rw [slotOf_of_get? found] at erased
  have split := removes.held_perm
  rw [empty, List.nil_append] at split
  exact (split.symm.append_left _).trans erased

theorem Shaped.replace {pool : OrderPool Tx} (shaped : Shaped fields pool) (side : Side) {addr : Address}
    {l l' : OrdertxList Tx} {removed : List Tx} (found : (pool.lists side).get? addr = some l)
    (removes : l.Removes fields.nonce l' removed) :
    Shaped fields (pool.setLists side ((pool.lists side).insert addr l')) := by
  obtain ⟨-, strict, owner⟩ := shaped.slots side addr l found
  refine shaped.setLists_insert removes.valid (removes.strict.trans strict) ?_ ?_
  · intro tx member
    exact owner tx (removes.mem_held (.inl member))
  · intro n present
    exact shaped.apart side addr n ⟨l, found, removes.get_isSome present⟩

/-- A list operation that removes transactions from the list of `addr` puts them in
flight. -/
theorem Consistent.replace {pool : OrderPool Tx} {inFlight : List Tx} (consistent : Consistent fields pool inFlight)
    (side : Side) {addr : Address} {l l' : OrdertxList Tx} {removed : List Tx}
    (found : (pool.lists side).get? addr = some l) (removes : l.Removes fields.nonce l' removed) :
    Consistent fields (pool.setLists side ((pool.lists side).insert addr l')) (removed ++ inFlight) := by
  refine ⟨consistent.shaped.replace side found removes, ?_⟩
  rw [OrderPool.all_setLists, ← List.append_assoc]
  exact consistent.tracked.perm_right ((held_replace side found removes).symm.append_right _)

theorem Consistent.erase {pool : OrderPool Tx} {inFlight : List Tx} (consistent : Consistent fields pool inFlight)
    (side : Side) {addr : Address} {l : OrdertxList Tx} (found : (pool.lists side).get? addr = some l)
    (empty : l.held = []) :
    Consistent fields (pool.setLists side ((pool.lists side).erase addr)) inFlight := by
  obtain ⟨valid, -, -⟩ := consistent.shaped.slots side addr l found
  refine ⟨consistent.shaped.setLists_erase side addr, ?_⟩
  rw [OrderPool.all_setLists]
  have same := held_replace_empty side found (OrdertxList.Removes.refl valid) empty
  rw [List.append_nil] at same
  exact consistent.tracked.perm_right (same.symm.append_right _)

/-- `discard` takes the transactions it deletes out of flight. -/
theorem Consistent.discard {pool : OrderPool Tx} {removed inFlight : List Tx}
    (consistent : Consistent fields pool (removed ++ inFlight)) :
    Consistent fields (pool.discard fields removed) inFlight := by
  refine ⟨consistent.shaped.congr rfl rfl, ?_⟩
  have front : (pool.held ++ (removed ++ inFlight)).Perm (removed ++ (pool.held ++ inFlight)) := by
    rw [← List.append_assoc, ← List.append_assoc]
    exact List.perm_append_comm.append_right _
  exact (consistent.tracked.perm_right front).eraseAll

/-! ### A transaction added to a list -/

section Attach

variable {pool : OrderPool Tx} {side : Side} {addr : Address} {tx : Tx}

/-- The list `tx` is added to: the one of `addr`, or a new one. -/
abbrev OrderPool.slotList (pool : OrderPool Tx) (side : Side) (addr : Address) : OrdertxList Tx :=
  ((pool.lists side).get? addr).getD (.new side.strict)

/-- The pool with `tx` added to the list of `addr` on one side. -/
abbrev OrderPool.attach (fields : OrderTxFields Tx) (pool : OrderPool Tx) (side : Side) (addr : Address) (tx : Tx) :
    OrderPool Tx :=
  pool.setLists side ((pool.lists side).insert addr ((pool.slotList side addr).add fields.nonce tx).2)

theorem slotList_valid (shaped : Shaped fields pool) (side : Side) (addr : Address) :
    (pool.slotList side addr).Valid fields.nonce ∧ (pool.slotList side addr).strict = side.strict ∧
      ∀ other ∈ (pool.slotList side addr).held, fields.sender other = addr := by
  cases found : (pool.lists side).get? addr with
  | none =>
    simp only [OrderPool.slotList, found, Option.getD_none]
    exact ⟨OrdertxList.new_valid _, rfl, by simp⟩
  | some l =>
    simp only [OrderPool.slotList, found, Option.getD_some]
    exact shaped.slots side addr l found

/-- The transaction a list held at `tx`'s nonce is held by the pool. -/
theorem replaced_mem_held {old : Tx} (replaced : (pool.slotList side addr).txs.get (fields.nonce tx) = some old) :
    old ∈ pool.held := by
  cases found : (pool.lists side).get? addr with
  | none =>
    simp only [OrderPool.slotList, found, Option.getD_none] at replaced
    cases replaced
  | some l =>
    simp only [OrderPool.slotList, found, Option.getD_some] at replaced
    have inList := OrdertxList.mem_held_of_get replaced
    have inSide : old ∈ heldIn (pool.lists side) :=
      List.mem_flatMap.mpr ⟨l, List.mem_map.mpr ⟨(addr, l), (SortedMap.get?_eq_some_iff _ _ _).mp found, rfl⟩, inList⟩
    exact (OrderPool.held_perm_side pool side).symm.subset (List.mem_append_left _ inSide)

theorem Shaped.attach (shaped : Shaped fields pool) (owner : fields.sender tx = addr)
    (free : ¬ Occupied (pool.lists side.other) addr (fields.nonce tx)) :
    Shaped fields (pool.attach fields side addr tx) := by
  obtain ⟨valid, strict, filed⟩ := slotList_valid shaped side addr
  obtain ⟨-, addedValid, -, addedStrict⟩ := OrdertxList.add_spec valid tx
  refine shaped.setLists_insert addedValid (addedStrict.trans strict) ?_ ?_
  · intro other member
    have grown := (OrdertxList.held_add_perm fields.nonce (pool.slotList side addr) tx).subset
      (List.mem_append_left _ member)
    rcases List.mem_cons.mp grown with same | before
    · rw [same, owner]
    · exact filed other before
  · intro n present
    rw [OrdertxList.add_get] at present
    split at present
    · next same =>
      rw [← same]
      exact free
    · cases found : (pool.lists side).get? addr with
      | none =>
        simp only [OrderPool.slotList, found, Option.getD_none] at present
        cases present
      | some l =>
        simp only [OrderPool.slotList, found, Option.getD_some] at present
        exact shaped.apart side addr n ⟨l, found, present⟩

/-- Adding `tx` puts it in place of the transaction held at its nonce. -/
theorem held_attach (fields : OrderTxFields Tx) (pool : OrderPool Tx) (side : Side) (addr : Address) (tx : Tx) :
    ((pool.attach fields side addr tx).held ++ ((pool.slotList side addr).txs.get (fields.nonce tx)).toList).Perm
      (tx :: pool.held) := by
  set list := pool.slotList side addr
  set held' := (pool.attach fields side addr tx).held
  set old := (list.txs.get (fields.nonce tx)).toList
  have traded : (held' ++ list.held).Perm ((list.add fields.nonce tx).2.held ++ pool.held) := by
    have swapped := OrderPool.held_setLists_insert pool side addr (list.add fields.nonce tx).2
    rwa [slotOf_eq_held_getD _ _ side.strict] at swapped
  have added := OrdertxList.held_add_perm fields.nonce list tx
  -- both sides are `held' ++ old ++ list.held` up to order
  have grown : ((held' ++ old) ++ list.held).Perm ((tx :: pool.held) ++ list.held) := by
    calc ((held' ++ old) ++ list.held).Perm ((held' ++ list.held) ++ old) := by
          rw [List.append_assoc, List.append_assoc]
          exact List.Perm.append_left _ List.perm_append_comm
      _ ~ ((list.add fields.nonce tx).2.held ++ pool.held) ++ old := traded.append_right _
      _ ~ ((list.add fields.nonce tx).2.held ++ old) ++ pool.held := by
          rw [List.append_assoc, List.append_assoc]
          exact List.Perm.append_left _ List.perm_append_comm
      _ ~ (tx :: list.held) ++ pool.held := added.append_right _
      _ ~ (tx :: pool.held) ++ list.held := by
          rw [List.cons_append, List.cons_append]
          exact List.Perm.cons tx List.perm_append_comm
  exact (List.perm_append_right_iff _).mp grown

theorem mem_held_attach (fields : OrderTxFields Tx) (pool : OrderPool Tx) (side : Side) (addr : Address) (tx : Tx) :
    tx ∈ (pool.attach fields side addr tx).held := by
  have inList := OrdertxList.mem_held_add fields.nonce (pool.slotList side addr) tx
  have inSide := (heldIn_insert (pool.lists side) addr ((pool.slotList side addr).add fields.nonce tx).2).symm.subset
    (List.mem_append_left _ inList)
  have held := OrderPool.held_perm_side (pool.attach fields side addr tx) side
  rw [OrderPool.lists_setLists] at held
  exact held.symm.subset (List.mem_append_left _ inSide)

/-- A transaction in flight added to a list, its predecessor at the nonce dropped
from `all`. -/
theorem Consistent.attach_inFlight {rest : List Tx} (consistent : Consistent fields pool (tx :: rest)) (side : Side)
    (owner : fields.sender tx = addr) (free : ¬ Occupied (pool.lists side.other) addr (fields.nonce tx)) :
    let old := (pool.slotList side addr).txs.get (fields.nonce tx)
    SortedMap.Indexes fields.hash (pool.all.eraseOld fields.hash old) ((pool.attach fields side addr tx).held ++ rest) ∧
      (pool.all.eraseOld fields.hash old).get? (fields.hash tx) = some tx ∧
      Shaped fields (pool.attach fields side addr tx) := by
  intro old
  have shape : (old.toList ++ ((pool.attach fields side addr tx).held ++ rest)).Perm (pool.held ++ tx :: rest) := by
    have swapped := held_attach fields pool side addr tx
    calc (old.toList ++ ((pool.attach fields side addr tx).held ++ rest)).Perm
          (((pool.attach fields side addr tx).held ++ old.toList) ++ rest) := by
          rw [← List.append_assoc]
          exact List.perm_append_comm.append_right _
      _ ~ (tx :: pool.held) ++ rest := swapped.append_right _
      _ ~ pool.held ++ tx :: rest := List.perm_middle.symm
  obtain ⟨indexed, found⟩ := consistent.tracked.replace_mem shape
    (List.mem_append_left _ (mem_held_attach fields pool side addr tx))
  exact ⟨indexed, found, consistent.shaped.attach owner free⟩

/-- A new transaction added to a list, its predecessor at the nonce dropped from
`all`. -/
theorem Consistent.attach_fresh {rest : List Tx} (consistent : Consistent fields pool rest) (side : Side)
    (fresh : pool.all.get? (fields.hash tx) = none) (owner : fields.sender tx = addr)
    (free : ¬ Occupied (pool.lists side.other) addr (fields.nonce tx)) :
    let old := (pool.slotList side addr).txs.get (fields.nonce tx)
    SortedMap.Indexes fields.hash ((pool.all.eraseOld fields.hash old).insert (fields.hash tx) tx)
        ((pool.attach fields side addr tx).held ++ rest) ∧
      Shaped fields (pool.attach fields side addr tx) := by
  intro old
  refine ⟨consistent.tracked.replace_fresh fresh ?_ ?_, consistent.shaped.attach owner free⟩
  · intro o member
    exact List.mem_append_left _ (replaced_mem_held (Option.mem_toList.mp member))
  · have swapped := held_attach fields pool side addr tx
    calc (((pool.attach fields side addr tx).held ++ rest) ++ old.toList).Perm
          (((pool.attach fields side addr tx).held ++ old.toList) ++ rest) := by
          rw [List.append_assoc, List.append_assoc]
          exact List.Perm.append_left _ List.perm_append_comm
      _ ~ (tx :: pool.held) ++ rest := swapped.append_right _
      _ = tx :: (pool.held ++ rest) := rfl

end Attach

/-! ### The operations that add a transaction to a list -/

section Add

variable {pool : OrderPool Tx} {tx : Tx} {rest : List Tx}

theorem enqueueTx_eq (pool : OrderPool Tx) (hash : Hash) (tx : Tx) :
    pool.enqueueTx fields hash tx =
      (.ok ((pool.slotList .queue (fields.sender tx)).txs.get (fields.nonce tx)).isSome,
        { pool.attach fields .queue (fields.sender tx) tx with
          all := (pool.all.eraseOld fields.hash ((pool.slotList .queue (fields.sender tx)).txs.get
            (fields.nonce tx))).insert hash tx }) := rfl

theorem promoteTx_eq (pool : OrderPool Tx) (addr : Address) (hash : Hash) (tx : Tx) :
    pool.promoteTx fields addr hash tx =
      let all := pool.all.eraseOld fields.hash ((pool.slotList .pending addr).txs.get (fields.nonce tx))
      { pool.attach fields .pending addr tx with
        all := if (all.get? hash).isNone then all.insert hash tx else all
        beats := pool.beats.insert addr pool.now
        pendingNonce := Function.update pool.pendingNonce addr (fields.nonce tx + 1) } := rfl

theorem replacePending_eq (pool : OrderPool Tx) (tx : Tx) :
    pool.replacePending fields tx =
      (.ok ((pool.slotList .pending (fields.sender tx)).txs.get (fields.nonce tx)).isSome,
        { pool.attach fields .pending (fields.sender tx) tx with
          all := (pool.all.eraseOld fields.hash ((pool.slotList .pending (fields.sender tx)).txs.get
            (fields.nonce tx))).insert (fields.hash tx) tx }) := rfl

@[simp] theorem enqueueTx_pending (pool : OrderPool Tx) (hash : Hash) (tx : Tx) :
    (pool.enqueueTx fields hash tx).2.pending = pool.pending := rfl

@[simp] theorem promoteTx_queue (pool : OrderPool Tx) (addr : Address) (hash : Hash) (tx : Tx) :
    (pool.promoteTx fields addr hash tx).queue = pool.queue := rfl

theorem Consistent.enqueueTx (consistent : Consistent fields pool (tx :: rest))
    (free : ¬ Occupied pool.pending (fields.sender tx) (fields.nonce tx)) :
    Consistent fields (pool.enqueueTx fields (fields.hash tx) tx).2 rest := by
  obtain ⟨indexed, -, shaped⟩ := consistent.attach_inFlight .queue rfl free
  rw [enqueueTx_eq]
  exact ⟨shaped.congr rfl rfl, indexed.insert_mem (List.mem_append_left _ (mem_held_attach fields pool _ _ tx))⟩

theorem Consistent.enqueueTx_fresh (consistent : Consistent fields pool rest)
    (fresh : pool.all.get? (fields.hash tx) = none) (free : ¬ Occupied pool.pending (fields.sender tx) (fields.nonce tx)) :
    Consistent fields (pool.enqueueTx fields (fields.hash tx) tx).2 rest := by
  obtain ⟨indexed, shaped⟩ := consistent.attach_fresh .queue fresh rfl free
  rw [enqueueTx_eq]
  exact ⟨shaped.congr rfl rfl, indexed⟩

theorem Consistent.promoteTx {addr : Address} (consistent : Consistent fields pool (tx :: rest))
    (owner : fields.sender tx = addr) (free : ¬ Occupied pool.queue addr (fields.nonce tx)) :
    Consistent fields (pool.promoteTx fields addr (fields.hash tx) tx) rest := by
  obtain ⟨indexed, found, shaped⟩ := consistent.attach_inFlight .pending owner free
  rw [promoteTx_eq]
  -- the transaction is indexed already, so the failsafe inserts nothing
  simp only [found, Option.isNone_some, Bool.false_eq_true, if_false]
  exact ⟨shaped.congr rfl rfl, indexed⟩

theorem Consistent.replacePending (consistent : Consistent fields pool rest)
    (fresh : pool.all.get? (fields.hash tx) = none) (free : ¬ Occupied pool.queue (fields.sender tx) (fields.nonce tx)) :
    Consistent fields (pool.replacePending fields tx).2 rest := by
  obtain ⟨indexed, shaped⟩ := consistent.attach_fresh .pending fresh rfl free
  rw [replacePending_eq]
  exact ⟨shaped.congr rfl rfl, indexed⟩

/-- `enqueueTx` of transactions in flight whose nonces the pending side does not hold. -/
theorem Consistent.enqueueAll {txs : List Tx} (consistent : Consistent fields pool (txs ++ rest))
    (free : ∀ tx ∈ txs, ¬ Occupied pool.pending (fields.sender tx) (fields.nonce tx)) :
    Consistent fields (pool.enqueueAll fields txs) rest := by
  induction txs generalizing pool with
  | nil => exact consistent
  | cons tx more ih =>
    have first := Consistent.enqueueTx consistent (free tx List.mem_cons_self)
    refine ih first ?_
    intro other member
    rw [enqueueTx_pending]
    exact free other (List.mem_cons_of_mem tx member)

/-- `promoteTx` of transactions of `addr` in flight whose nonces its queue does not hold. -/
theorem Consistent.promoteAll {addr : Address} {txs : List Tx} (consistent : Consistent fields pool (txs ++ rest))
    (owner : ∀ tx ∈ txs, fields.sender tx = addr) (free : ∀ tx ∈ txs, ¬ Occupied pool.queue addr (fields.nonce tx)) :
    Consistent fields (txs.foldl (fun pool tx => pool.promoteTx fields addr (fields.hash tx) tx) pool) rest := by
  induction txs generalizing pool with
  | nil => exact consistent
  | cons tx more ih =>
    have first := Consistent.promoteTx consistent (owner tx List.mem_cons_self) (free tx List.mem_cons_self)
    refine ih first (fun other member => owner other (List.mem_cons_of_mem tx member)) ?_
    intro other member
    rw [promoteTx_queue]
    exact free other (List.mem_cons_of_mem tx member)

end Add

/-! ### `add` and `removeTx` -/

section Remove

variable {pool : OrderPool Tx}

theorem PoolInv.addToQueue {tx : Tx} (inv : PoolInv fields pool) (fresh : pool.all.get? (fields.hash tx) = none)
    (free : ¬ Occupied pool.pending (fields.sender tx) (fields.nonce tx)) (isLocal : Bool) :
    PoolInv fields (pool.addToQueue fields tx isLocal).2 := by
  have enqueued := inv.enqueueTx_fresh fresh free
  rw [enqueueTx_eq] at enqueued
  simp only [OrderPool.addToQueue, enqueueTx_eq]
  split
  · exact enqueued.congr rfl rfl rfl
  · exact enqueued

theorem PoolInv.add (inv : PoolInv fields pool) (tx : Tx) (isLocal : Bool) :
    PoolInv fields (pool.add fields tx isLocal).2 := by
  unfold OrderPool.add
  by_cases known : (pool.all.get? (fields.hash tx)).isSome
  · simp only [known, if_true]
    exact inv
  · have fresh : pool.all.get? (fields.hash tx) = none := by simpa using known
    simp only [known, Bool.false_eq_true, if_false]
    split
    · exact inv
    · split
      · next overlapping =>
        -- the pending list holds the nonce, so the queue does not
        have occupied : Occupied pool.pending (fields.sender tx) (fields.nonce tx) := by
          cases found : pool.pending.get? (fields.sender tx) with
          | none => simp [found] at overlapping
          | some l => exact ⟨l, found, by simpa [found, OrdertxList.overlaps] using overlapping⟩
        exact inv.replacePending fresh (inv.shaped.apart .pending _ _ occupied)
      · next overlapping =>
        have free : ¬ Occupied pool.pending (fields.sender tx) (fields.nonce tx) := by
          rintro ⟨l, found, present⟩
          apply overlapping
          simpa [found, OrdertxList.overlaps] using present
        exact inv.addToQueue fresh free isLocal

/-- A held transaction sits in the list of its sender, at its nonce, on one side. -/
theorem Shaped.locate (shaped : Shaped fields pool) {tx : Tx} (held : tx ∈ pool.held) :
    ∃ side l, (pool.lists side).get? (fields.sender tx) = some l ∧ l.txs.get (fields.nonce tx) = some tx := by
  have onSide : ∀ side, tx ∈ heldIn (pool.lists side) →
      ∃ l, (pool.lists side).get? (fields.sender tx) = some l ∧ l.txs.get (fields.nonce tx) = some tx := by
    intro side member
    obtain ⟨addr, l, found, inList⟩ := mem_heldIn member
    obtain ⟨valid, -, owner⟩ := shaped.slots side addr l found
    rw [← owner tx inList] at found
    exact ⟨l, found, valid.get_of_mem inList⟩
  rcases List.mem_append.mp held with pending | queue
  · exact ⟨.pending, onSide .pending pending⟩
  · exact ⟨.queue, onSide .queue queue⟩

/-- The end of `removeTx` on the queue puts the transaction in flight. -/
theorem Shaped.removeQueued (shaped : Shaped fields pool) {tx : Tx} {q : OrdertxList Tx}
    (found : pool.queue.get? (fields.sender tx) = some q) (stored : q.txs.get (fields.nonce tx) = some tx) :
    Shaped fields (pool.removeQueued fields tx) ∧ ((pool.removeQueued fields tx).held ++ [tx]).Perm pool.held := by
  obtain ⟨valid, strict, -⟩ := shaped.slots .queue _ q found
  obtain ⟨-, removes⟩ := OrdertxList.remove_removes valid tx
  rw [stored, OrdertxList.remove_invalids_of_not_strict q tx strict, Option.toList_some, List.append_nil] at removes
  dsimp only [OrderPool.removeQueued]
  rw [found]
  dsimp only
  split
  · next empty =>
    exact ⟨shaped.setLists_erase .queue _,
      held_replace_empty .queue found removes (OrdertxList.held_eq_nil_of_empty empty)⟩
  · exact ⟨shaped.replace .queue found removes, held_replace .queue found removes⟩

/-- `all` without the entry of a held transaction indexes the others. -/
theorem drop_tracked {tx : Tx} {held held' rest : List Tx} (tracked : SortedMap.Indexes fields.hash pool.all held)
    (split : (held' ++ tx :: rest).Perm held) :
    SortedMap.Indexes fields.hash (pool.all.erase (fields.hash tx)) (held' ++ rest) :=
  SortedMap.Indexes.erase (tracked.perm_right (split.symm.trans List.perm_middle))

theorem Consistent.lowerPendingNonce {inFlight : List Tx} (consistent : Consistent fields pool inFlight)
    (addr : Address) (n : Nat) : Consistent fields (pool.lowerPendingNonce addr n) inFlight := by
  unfold OrderPool.lowerPendingNonce
  split
  · exact consistent.congr rfl rfl rfl
  · exact consistent

theorem removeQueued_all (pool : OrderPool Tx) (tx : Tx) : (pool.removeQueued fields tx).all = pool.all := by
  dsimp only [OrderPool.removeQueued]
  split
  · rfl
  · split <;> rfl

theorem PoolInv.removeTx (inv : PoolInv fields pool) (hash : Hash) : PoolInv fields (pool.removeTx fields hash) := by
  unfold OrderPool.removeTx
  cases found : pool.all.get? hash with
  | none => exact inv
  | some tx =>
    obtain ⟨member, keyed⟩ := inv.tracked.mem_of_get? found
    rw [List.append_nil] at member
    subst keyed
    have tracked : SortedMap.Indexes fields.hash pool.all pool.held := by
      simpa using inv.tracked
    obtain ⟨side, l, located, stored⟩ := inv.shaped.locate member
    dsimp only
    -- when the pending list has nothing at the nonce, the transaction is queued
    have queued : (∀ p, pool.pending.get? (fields.sender tx) = some p → p.txs.get (fields.nonce tx) = none) →
        PoolInv fields ({ pool with all := pool.all.erase (fields.hash tx) }.removeQueued fields tx) := by
      intro notPending
      have onQueue : pool.queue.get? (fields.sender tx) = some l := by
        cases side with
        | pending =>
          rw [notPending l located] at stored
          cases stored
        | queue => exact located
      have erased : Shaped fields { pool with all := pool.all.erase (fields.hash tx) } := inv.shaped.congr rfl rfl
      obtain ⟨shaped, split⟩ := erased.removeQueued onQueue stored
      refine ⟨shaped, ?_⟩
      rw [removeQueued_all]
      exact drop_tracked tracked split
    cases pendingFound : pool.pending.get? (fields.sender tx) with
    | none =>
      refine queued fun p present => ?_
      rw [pendingFound] at present
      cases present
    | some p =>
      obtain ⟨valid, -, owner⟩ := inv.shaped.slots .pending _ p pendingFound
      obtain ⟨flag, removes⟩ := OrdertxList.remove_removes valid tx
      by_cases present : (p.txs.get (fields.nonce tx)).isSome
      · -- the pending list holds the transaction itself
        have storedPending : p.txs.get (fields.nonce tx) = some tx := by
          cases side with
          | pending =>
            obtain rfl : l = p := Option.some.inj (located.symm.trans pendingFound)
            exact stored
          | queue =>
            exfalso
            exact inv.shaped.apart .pending _ _ ⟨p, pendingFound, present⟩ ⟨l, located, by rw [stored]; rfl⟩
        rw [storedPending, Option.toList_some] at removes
        have removedFlag : (p.remove fields.nonce tx).1.1 = true := by rw [flag, storedPending]; rfl
        simp only [removedFlag, if_true]
        apply Consistent.lowerPendingNonce
        -- the invalidated transactions are in flight, and their nonces are free on the pending side
        have owned : ∀ other ∈ (p.remove fields.nonce tx).1.2, fields.sender other = fields.sender tx :=
          fun other inside => owner other (removes.mem_held (.inr (List.mem_cons_of_mem tx inside)))
        have gone : ∀ other ∈ (p.remove fields.nonce tx).1.2,
            (p.remove fields.nonce tx).2.txs.get (fields.nonce other) = none :=
          fun other inside => removes.get_removed valid (List.mem_cons_of_mem tx inside)
        split
        · next empty =>
          apply Consistent.enqueueAll
          · rw [List.append_nil]
            refine ⟨(inv.shaped.setLists_erase .pending _).congr rfl rfl, ?_⟩
            exact drop_tracked tracked
              (held_replace_empty .pending pendingFound removes (OrdertxList.held_eq_nil_of_empty empty))
          · intro other inside occupied
            rw [owned other inside] at occupied
            obtain ⟨l', erased, -⟩ := occupied
            simp at erased
        · apply Consistent.enqueueAll
          · rw [List.append_nil]
            refine ⟨(inv.shaped.replace .pending pendingFound removes).congr rfl rfl, ?_⟩
            exact drop_tracked tracked (held_replace .pending pendingFound removes)
          · intro other inside occupied
            rw [owned other inside] at occupied
            have stillThere := (occupied_insert_self _ _ _ _).mp occupied
            rw [gone other inside] at stillThere
            cases stillThere
      · have notPresent : p.txs.get (fields.nonce tx) = none := by simpa using present
        have removedFlag : (p.remove fields.nonce tx).1.1 = false := by rw [flag, notPresent]; rfl
        simp only [removedFlag, Bool.false_eq_true, if_false]
        refine queued fun p' found' => ?_
        rw [pendingFound] at found'
        cases found'
        exact notPresent

end Remove

/-! ### `promoteExecutables` -/

section Promote

variable (config : OrderPoolConfig) {pool : OrderPool Tx}

theorem foldl_promoteTx_queue (addr : Address) (txs : List Tx) (pool : OrderPool Tx) :
    (txs.foldl (fun pool tx => pool.promoteTx fields addr (fields.hash tx) tx) pool).queue = pool.queue := by
  induction txs generalizing pool with
  | nil => rfl
  | cons tx more ih => exact ih _

theorem foldl_promoteTx_locals (addr : Address) (txs : List Tx) (pool : OrderPool Tx) :
    (txs.foldl (fun pool tx => pool.promoteTx fields addr (fields.hash tx) tx) pool).locals = pool.locals := by
  induction txs generalizing pool with
  | nil => rfl
  | cons tx more ih => exact ih _

/-- A list operation followed by `delete(pool.all, tx.Hash())` of what it removed. -/
theorem PoolInv.replaceDiscard (inv : PoolInv fields pool) (side : Side) {addr : Address} {l l' : OrdertxList Tx}
    {removed : List Tx} (found : (pool.lists side).get? addr = some l) (removes : l.Removes fields.nonce l' removed) :
    PoolInv fields ((pool.setLists side ((pool.lists side).insert addr l')).discard fields removed) :=
  Consistent.discard (inv.replace side found removes)

theorem PoolInv.promoteAccount (inv : PoolInv fields pool) (addr : Address) :
    PoolInv fields (pool.promoteAccount config fields addr) := by
  unfold OrderPool.promoteAccount
  cases found : pool.queue.get? addr with
  | none => exact inv
  | some list =>
    dsimp only
    obtain ⟨valid, -, owner⟩ := inv.shaped.slots .queue addr list found
    -- the transactions below the account nonce are dropped
    have forwarded := OrdertxList.forward_removes valid (pool.currentNonce addr)
    set forwardedList := (list.forward (pool.currentNonce addr)).2
    set forwardedPool := (pool.setQueue addr forwardedList).discard fields (list.forward (pool.currentNonce addr)).1
    have first : PoolInv fields forwardedPool := inv.replaceDiscard .queue found forwarded
    -- the executable ones are promoted
    set readied := forwardedList.ready (forwardedPool.pendingNonce addr)
    have readyRemoves := OrdertxList.ready_removes forwarded.valid (forwardedPool.pendingNonce addr)
    have foundForwarded : (forwardedPool.lists .queue).get? addr = some forwardedList := by
      simp [forwardedPool, OrderPool.lists]
    set promoted := (forwardedPool.setQueue addr readied.2).promoteAll fields addr readied.1
    have second : PoolInv fields promoted := by
      refine Consistent.promoteAll (first.replace .queue foundForwarded readyRemoves) ?_ ?_
      · intro tx member
        exact owner tx (forwarded.mem_held (.inl (readyRemoves.mem_held (.inr member))))
      · intro tx member occupied
        have stillThere := (occupied_insert_self _ _ _ _).mp occupied
        rw [readyRemoves.get_removed forwarded.valid member] at stillThere
        cases stillThere
    -- the ones over the limit of a remote account are dropped
    have foundReadied : (promoted.lists .queue).get? addr = some readied.2 := by
      simp [promoted, OrderPool.promoteAll, foldl_promoteTx_queue, OrderPool.lists]
    set capped := if promoted.locals.contains addr then ([], readied.2) else readied.2.cap config.accountQueue
    have capRemoves : readied.2.Removes fields.nonce capped.2 capped.1 := by
      by_cases isLocal : promoted.locals.contains addr = true
      · simp only [capped, isLocal, if_true]
        exact OrdertxList.Removes.refl readyRemoves.valid
      · simp only [capped, isLocal, Bool.false_eq_true, if_false]
        exact OrdertxList.cap_removes readyRemoves.valid _
    have third := second.replaceDiscard .queue foundReadied capRemoves
    split
    · next empty =>
      have foundCapped : ((((promoted.setQueue addr capped.2).discard fields capped.1)).lists .queue).get? addr =
          some capped.2 := by
        simp [OrderPool.lists]
      exact third.erase .queue foundCapped (OrdertxList.held_eq_nil_of_empty empty)
    · exact third

/-- One transaction at a time out of flight, with the pending nonce lowered to it. -/
theorem Consistent.discardEach {addr : Address} {txs rest : List Tx} (consistent : Consistent fields pool (txs ++ rest)) :
    Consistent fields
      (txs.foldl (fun pool tx => (pool.discard fields [tx]).lowerPendingNonce addr (fields.nonce tx)) pool) rest := by
  induction txs generalizing pool with
  | nil => exact consistent
  | cons tx more ih =>
    have first : Consistent fields (pool.discard fields [tx]) (more ++ rest) := Consistent.discard consistent
    exact ih (first.lowerPendingNonce addr (fields.nonce tx))

theorem PoolInv.capPendingOne (inv : PoolInv fields pool) (addr : Address) :
    PoolInv fields (pool.capPendingOne fields addr) := by
  unfold OrderPool.capPendingOne
  cases found : pool.pending.get? addr with
  | none => exact inv
  | some list =>
    dsimp only
    obtain ⟨valid, -, -⟩ := inv.shaped.slots .pending addr list found
    exact Consistent.discardEach (inv.replace .pending found (OrdertxList.cap_removes valid _))

theorem PoolInv.capRound (inv : PoolInv fields pool) (accounts : List Address) (pending : Nat) :
    PoolInv fields (pool.capRound fields accounts pending).1 := by
  unfold OrderPool.capRound
  induction accounts generalizing pool pending with
  | nil => exact inv
  | cons addr more ih => exact ih (inv.capPendingOne addr) (pending - 1)

theorem PoolInv.equalizeLoop (inv : PoolInv fields pool) (offenders : List Address) (threshold fuel pending : Nat) :
    PoolInv fields (pool.equalizeLoop config fields offenders threshold fuel pending).1 := by
  induction fuel generalizing pool pending with
  | zero => exact inv
  | succ fuel ih =>
    unfold OrderPool.equalizeLoop
    split
    · exact inv
    · split
      · exact ih (inv.capRound _ _) _
      · exact inv

theorem PoolInv.equalize (inv : PoolInv fields pool) (spammers offenders : List Address) (pending : Nat) :
    PoolInv fields (pool.equalize config fields spammers offenders pending).1 := by
  induction spammers generalizing pool offenders pending with
  | nil => exact inv
  | cons offender more ih =>
    unfold OrderPool.equalize
    split
    · dsimp only
      split
      · exact ih (inv.equalizeLoop config _ _ _ _) _ _
      · exact ih inv _ _
    · exact inv

theorem PoolInv.reduceLoop (inv : PoolInv fields pool) (offenders : List Address) (fuel pending : Nat) :
    PoolInv fields (pool.reduceLoop config fields offenders fuel pending).1 := by
  induction fuel generalizing pool pending with
  | zero => exact inv
  | succ fuel ih =>
    unfold OrderPool.reduceLoop
    split
    · exact inv
    · split
      · exact ih (inv.capRound _ _) _
      · exact inv

theorem PoolInv.capPending (inv : PoolInv fields pool) : PoolInv fields (pool.capPending config fields) := by
  unfold OrderPool.capPending
  dsimp only
  split
  · have equalized := inv.equalize config (pool.spammers config) [] pool.pendingCount
    split
    · exact equalized.reduceLoop config _ _ _
    · exact equalized
  · exact inv

theorem PoolInv.removeAll (inv : PoolInv fields pool) (txs : List Tx) : PoolInv fields (pool.removeAll fields txs) := by
  unfold OrderPool.removeAll
  induction txs generalizing pool with
  | nil => exact inv
  | cons tx more ih => exact ih (inv.removeTx _)

theorem PoolInv.dropQueued (inv : PoolInv fields pool) (addresses : List Address) (drop : Nat) :
    PoolInv fields (pool.dropQueued fields addresses drop) := by
  induction addresses generalizing pool drop with
  | nil => exact inv
  | cons addr more ih =>
    unfold OrderPool.dropQueued
    split
    · cases found : pool.queue.get? addr with
      | none => exact ih inv drop
      | some list =>
        dsimp only
        obtain ⟨valid, -, -⟩ := inv.shaped.slots .queue addr list found
        -- `Flatten` only fills the cache of the list
        have flattened : PoolInv fields (pool.setQueue addr (list.flatten fields.nonce).2) :=
          (inv.replace .queue found (OrdertxList.flatten_spec valid).2)
        split
        · exact ih (flattened.removeAll _) _
        · exact ih (flattened.removeAll _) _
    · exact inv

theorem PoolInv.capQueued (inv : PoolInv fields pool) : PoolInv fields (pool.capQueued config fields) := by
  unfold OrderPool.capQueued
  dsimp only
  split
  · exact inv.dropQueued _ _
  · exact inv

theorem PoolInv.promoteExecutables (inv : PoolInv fields pool) (accounts : Option (List Address)) :
    PoolInv fields (pool.promoteExecutables config fields accounts) := by
  unfold OrderPool.promoteExecutables
  dsimp only
  have promoted : ∀ (accounts : List Address) (pool : OrderPool Tx), PoolInv fields pool →
      PoolInv fields (accounts.foldl (OrderPool.promoteAccount config fields) pool) := by
    intro accounts
    induction accounts with
    | nil => exact fun _ inv => inv
    | cons addr more ih => exact fun pool inv => ih _ (inv.promoteAccount config addr)
  exact ((promoted _ pool inv).capPending config).capQueued config

end Promote

/-! ### `demoteUnexecutables`, `Pending` and `reset` -/

section Demote

variable (config : OrderPoolConfig) {pool : OrderPool Tx}

theorem enqueueAll_pending (pool : OrderPool Tx) (txs : List Tx) :
    (pool.enqueueAll fields txs).pending = pool.pending := by
  unfold OrderPool.enqueueAll
  induction txs generalizing pool with
  | nil => rfl
  | cons tx more ih => exact ih _

theorem PoolInv.demoteAccount (inv : PoolInv fields pool) (addr : Address) :
    PoolInv fields (pool.demoteAccount fields addr) := by
  unfold OrderPool.demoteAccount
  cases found : pool.pending.get? addr with
  | none => exact inv
  | some list =>
    dsimp only
    obtain ⟨valid, -, owner⟩ := inv.shaped.slots .pending addr list found
    -- the transactions below the account nonce are dropped
    have forwarded := OrdertxList.forward_removes valid (pool.currentNonce addr)
    set forwardedList := (list.forward (pool.currentNonce addr)).2
    set forwardedPool := (pool.setPending addr forwardedList).discard fields (list.forward (pool.currentNonce addr)).1
    have first : PoolInv fields forwardedPool := inv.replaceDiscard .pending found forwarded
    have foundForwarded : (forwardedPool.lists .pending).get? addr = some forwardedList := by
      simp [forwardedPool, OrderPool.lists]
    -- after a gap every remaining transaction goes back to the queue
    set postponed := if forwardedList.len > 0 ∧ (forwardedList.txs.get (pool.currentNonce addr)).isNone then
      forwardedList.cap 0 else ([], forwardedList)
    have postponeRemoves : forwardedList.Removes fields.nonce postponed.2 postponed.1 := by
      by_cases gap : forwardedList.len > 0 ∧ (forwardedList.txs.get (pool.currentNonce addr)).isNone
      · simp only [postponed, gap]
        exact OrdertxList.cap_removes forwarded.valid 0
      · simp only [postponed, gap, if_false]
        exact OrdertxList.Removes.refl forwarded.valid
    have enqueued : PoolInv fields ((forwardedPool.setPending addr postponed.2).enqueueAll fields postponed.1) := by
      refine Consistent.enqueueAll (first.replace .pending foundForwarded postponeRemoves) ?_
      intro tx member occupied
      rw [owner tx (forwarded.mem_held (.inl (postponeRemoves.mem_held (.inr member))))] at occupied
      have stillThere := (occupied_insert_self _ _ _ _).mp occupied
      rw [postponeRemoves.get_removed forwarded.valid member] at stillThere
      cases stillThere
    split
    · next empty =>
      have foundPostponed :
          ((((forwardedPool.setPending addr postponed.2).enqueueAll fields postponed.1)).lists .pending).get? addr =
            some postponed.2 := by
        simp [OrderPool.lists, enqueueAll_pending]
      exact (enqueued.erase .pending foundPostponed
        (OrdertxList.held_eq_nil_of_empty empty)).congr rfl rfl rfl
    · exact enqueued

theorem PoolInv.demoteUnexecutables (inv : PoolInv fields pool) : PoolInv fields (pool.demoteUnexecutables fields) := by
  unfold OrderPool.demoteUnexecutables
  have demoted : ∀ (accounts : List Address) (pool : OrderPool Tx), PoolInv fields pool →
      PoolInv fields (accounts.foldl (OrderPool.demoteAccount fields) pool) := by
    intro accounts
    induction accounts with
    | nil => exact fun _ inv => inv
    | cons addr more ih => exact fun pool inv => ih _ (inv.demoteAccount addr)
  exact demoted _ pool inv

/-- `Flatten` of a pending list keeps the invariant: the list it writes back holds the
same transactions. -/
theorem PoolInv.flattenPending (inv : PoolInv fields pool) (addr : Address) :
    PoolInv fields (pool.flattenPending fields addr).2 := by
  unfold OrderPool.flattenPending
  cases found : pool.pending.get? addr with
  | none => exact inv
  | some list =>
    obtain ⟨valid, -, -⟩ := inv.shaped.slots .pending addr list found
    exact inv.replace .pending found (OrdertxList.flatten_spec valid).2

/-- `Flatten` of a pending list returns the account's pending transactions and leaves
every account's pending transactions as they were. -/
theorem PoolInv.flattenPending_held (inv : PoolInv fields pool) (addr : Address) :
    (pool.flattenPending fields addr).1 = ((pool.pending.get? addr).map OrdertxList.held).getD [] ∧
      ∀ a, ((pool.flattenPending fields addr).2.pending.get? a).map OrdertxList.held =
        (pool.pending.get? a).map OrdertxList.held := by
  unfold OrderPool.flattenPending
  cases found : pool.pending.get? addr with
  | none => exact ⟨rfl, fun _ => rfl⟩
  | some list =>
    obtain ⟨valid, -, -⟩ := inv.shaped.slots .pending addr list found
    refine ⟨(OrdertxList.flatten_spec valid).1, fun a => ?_⟩
    simp only [OrderPool.setPending_pending, SortedMap.get?_insert]
    split
    · next same =>
      rw [← same, found, Option.map_some, Option.map_some, OrdertxList.held_flatten valid]
    · rfl

/-- `Pending` keeps the invariant and returns each account of the pending map with its
pending transactions, account by account. -/
theorem PoolInv.pendingTxs (inv : PoolInv fields pool) :
    PoolInv fields (pool.pendingTxs fields).2 ∧
      (pool.pendingTxs fields).1 = pool.pending.entries.map fun entry => (entry.1, entry.2.held) := by
  unfold OrderPool.pendingTxs
  -- the loop keeps the invariant and every account's pending transactions
  have loop : ∀ (accounts : List Address) (state : List (Address × List Tx) × OrderPool Tx),
      PoolInv fields state.2 →
      (∀ a, (state.2.pending.get? a).map OrdertxList.held = (pool.pending.get? a).map OrdertxList.held) →
      let final := accounts.foldl
        (fun state addr =>
          let flattened := state.2.flattenPending fields addr
          (state.1 ++ [(addr, flattened.1)], flattened.2)) state
      PoolInv fields final.2 ∧
        final.1 = state.1 ++ accounts.map fun addr => (addr, ((pool.pending.get? addr).map OrdertxList.held).getD []) := by
    intro accounts
    induction accounts with
    | nil => exact fun state inv _ => ⟨inv, (List.append_nil _).symm⟩
    | cons addr more ih =>
      intro state inv same
      obtain ⟨flattened, kept⟩ := inv.flattenPending_held addr
      obtain ⟨final, listed⟩ := ih (state.1 ++ [(addr, (state.2.flattenPending fields addr).1)],
        (state.2.flattenPending fields addr).2) (inv.flattenPending addr) fun a => (kept a).trans (same a)
      refine ⟨final, ?_⟩
      rw [List.foldl_cons, listed]
      simp only [flattened, same addr, List.map_cons, List.append_assoc, List.singleton_append]
  obtain ⟨final, listed⟩ := loop _ ([], pool) inv fun _ => rfl
  refine ⟨final, ?_⟩
  rw [listed, List.nil_append, SortedMap.entries_map_eq_keys_map _ _ []]

/-- Each list `Pending` returns is in increasing nonce order. -/
theorem PoolInv.pendingTxs_increasing (inv : PoolInv fields pool) :
    ∀ entry ∈ (pool.pendingTxs fields).1, entry.2.Pairwise (fun a b => fields.nonce a < fields.nonce b) := by
  rw [inv.pendingTxs.2]
  intro entry member
  obtain ⟨⟨addr, list⟩, held, rfl⟩ := List.mem_map.mp member
  obtain ⟨valid, -, -⟩ := inv.shaped.slots .pending addr list ((SortedMap.get?_eq_some_iff _ _ _).mpr held)
  exact OrdertxList.Valid.held_increasing valid

theorem PoolInv.reset (inv : PoolInv fields pool) (nonces : Address → Nat) :
    PoolInv fields (pool.reset config fields nonces) := by
  unfold OrderPool.reset
  dsimp only
  have renonced : PoolInv fields { pool with currentNonce := nonces, pendingNonce := nonces } := inv.congr rfl rfl rfl
  have demoted := renonced.demoteUnexecutables
  -- each account's step keeps the invariant, so the loop over the accounts does
  have loop : ∀ (step : OrderPool Tx → Address → OrderPool Tx),
      (∀ pool addr, PoolInv fields pool → PoolInv fields (step pool addr)) →
      ∀ (accounts : List Address) (pool : OrderPool Tx), PoolInv fields pool →
        PoolInv fields (accounts.foldl step pool) := by
    intro step keeps accounts
    induction accounts with
    | nil => exact fun _ inv => inv
    | cons addr more ih => exact fun pool inv => ih _ (keeps pool addr inv)
  refine (loop _ (fun pool addr inv => ?_) _ _ demoted).promoteExecutables config none
  have flattened := inv.flattenPending addr
  split
  · exact flattened.congr rfl rfl rfl
  · exact flattened

theorem PoolInv.addTx (inv : PoolInv fields pool) (tx : Tx) (isLocal : Bool) :
    PoolInv fields (pool.addTx config fields tx isLocal).2 := by
  unfold OrderPool.addTx
  have added := inv.add tx isLocal
  dsimp only
  split
  · exact added
  · split
    · exact added
    · exact added.promoteExecutables config _

end Demote

/-! ### Runs -/

section Run

variable (config : OrderPoolConfig)

theorem poolInv_new (nonces : Address → Nat) : PoolInv fields (OrderPool.new nonces : OrderPool Tx) := by
  refine ⟨⟨?_, ?_⟩, ?_⟩
  · intro side addr l found
    cases side <;> simp [OrderPool.lists, OrderPool.new] at found
  · intro side addr n occupied
    obtain ⟨l, found, -⟩ := occupied
    cases side <;> simp [OrderPool.lists, OrderPool.new] at found
  · exact SortedMap.Indexes.empty

theorem PoolInv.step {pool : OrderPool Tx} (inv : PoolInv fields pool) (action : PoolAction Tx) :
    PoolInv fields (pool.step config fields action) := by
  cases action with
  | add tx isLocal => exact inv.add tx isLocal
  | addTx tx isLocal => exact inv.addTx config tx isLocal
  | removeTx hash => exact inv.removeTx hash
  | promoteExecutables accounts => exact inv.promoteExecutables config accounts
  | demoteUnexecutables => exact inv.demoteUnexecutables
  | pending => exact inv.pendingTxs.1
  | reset nonces => exact inv.reset config nonces
  | setNonces current pending => exact inv.congr rfl rfl rfl
  | tick now => exact inv.congr rfl rfl rfl

theorem PoolInv.run {pool : OrderPool Tx} (inv : PoolInv fields pool) (actions : List (PoolAction Tx)) :
    PoolInv fields (pool.run config fields actions) := by
  induction actions generalizing pool with
  | nil => exact inv
  | cons action more ih => exact ih (inv.step config action)

end Run

/-! ### What the invariant says -/

section Facts

variable {pool : OrderPool Tx}

theorem PoolInv.all_get?_iff (inv : PoolInv fields pool) (h : Hash) (tx : Tx) :
    pool.all.get? h = some tx ↔ fields.hash tx = h ∧ tx ∈ pool.held := by
  have tracked : SortedMap.Indexes fields.hash pool.all pool.held := by simpa using inv.tracked
  constructor
  · intro found
    obtain ⟨member, keyed⟩ := tracked.mem_of_get? found
    exact ⟨keyed, member⟩
  · rintro ⟨rfl, member⟩
    exact tracked.get?_of_mem member

theorem PoolInv.hashes_nodup (inv : PoolInv fields pool) : (pool.held.map fields.hash).Nodup := by
  have tracked : SortedMap.Indexes fields.hash pool.all pool.held := by simpa using inv.tracked
  exact tracked.nodup

theorem PoolInv.nonces_apart (inv : PoolInv fields pool) {addr : Address} {p q : OrdertxList Tx}
    (pending : pool.pending.get? addr = some p) (queued : pool.queue.get? addr = some q) (n : Nat) :
    p.txs.get n = none ∨ q.txs.get n = none := by
  by_cases held : (p.txs.get n).isSome
  · right
    have apart := inv.shaped.apart .pending addr n ⟨p, pending, held⟩
    cases gone : q.txs.get n with
    | none => rfl
    | some tx => exact absurd ⟨q, queued, by rw [gone]; rfl⟩ apart
  · left
    simpa using held

/-- Each list of the pool: the heap holds exactly the nonces of the items, without
duplicates, a cache is the items sorted by nonce, and `Flatten` returns the list's
transactions, in strictly increasing nonce order. -/
theorem PoolInv.list_spec (inv : PoolInv fields pool) {side : Side} {addr : Address} {l : OrdertxList Tx}
    (found : (pool.lists side).get? addr = some l) :
    l.txs.index = l.txs.items.keys ∧ l.txs.index.Nodup ∧ (∀ n tx, l.txs.get n = some tx → fields.nonce tx = n) ∧
      (∀ sorted, l.txs.cache = some sorted → sorted = sortByKey fields.nonce l.txs.items.values) ∧
      (l.flatten fields.nonce).1 = l.held ∧ l.held.Pairwise (fun a b => fields.nonce a < fields.nonce b) := by
  obtain ⟨valid, -, -⟩ := inv.shaped.slots side addr l found
  have sorted : sortByKey fields.nonce l.txs.items.values = l.txs.items.values :=
    List.Pairwise.insertionSort_eq (valid.held_increasing.imp le_of_lt)
  refine ⟨valid.indexed, ?_, ?_, ?_, ?_⟩
  · rw [valid.indexed]
    exact l.txs.items.keys_nodup
  · intro n tx stored
    exact valid.filed (n, tx) ((SortedMap.get?_eq_some_iff _ _ _).mp stored)
  · intro cache cached
    rw [sorted]
    exact valid.cached cache cached
  · exact ⟨(OrdertxList.flatten_spec valid).1, valid.held_increasing⟩

end Facts

end Invariant

/-- The order pool's bookkeeping: after any run of the pool's operations from a new
pool, `all` maps exactly the hashes of the held transactions to them, no two held
transactions share a hash, no account holds a nonce both pending and queued, every
list's heap and cache agree with its items, `Flatten` returns a list's transactions and
`Pending` each account of the pending map with its pending transactions, all in strictly
increasing nonce order. -/
theorem orderPool_bookkeeping {Tx : Type} (config : OrderPoolConfig) (fields : OrderTxFields Tx)
    (nonces : Address → Nat) (actions : List (PoolAction Tx)) :
    let pool := (OrderPool.new nonces).run config fields actions
    (∀ h tx, pool.all.get? h = some tx ↔ fields.hash tx = h ∧ tx ∈ pool.held) ∧
      (pool.held.map fields.hash).Nodup ∧
      (∀ addr p q n, pool.pending.get? addr = some p → pool.queue.get? addr = some q →
        p.txs.get n = none ∨ q.txs.get n = none) ∧
      (∀ side addr l, (pool.lists side).get? addr = some l →
        l.txs.index = l.txs.items.keys ∧ l.txs.index.Nodup ∧ (∀ n tx, l.txs.get n = some tx → fields.nonce tx = n) ∧
          (∀ sorted, l.txs.cache = some sorted → sorted = sortByKey fields.nonce l.txs.items.values) ∧
          (l.flatten fields.nonce).1 = l.held ∧ l.held.Pairwise (fun a b => fields.nonce a < fields.nonce b)) ∧
      (pool.pendingTxs fields).1 = pool.pending.entries.map (fun entry => (entry.1, entry.2.held)) ∧
      (∀ entry ∈ (pool.pendingTxs fields).1, entry.2.Pairwise (fun a b => fields.nonce a < fields.nonce b)) := by
  intro pool
  have inv : PoolInv fields pool := (poolInv_new nonces).run config actions
  exact ⟨inv.all_get?_iff, inv.hashes_nodup, fun _ _ _ n pending queued => inv.nonces_apart pending queued n,
    fun _ _ _ found => inv.list_spec found, inv.pendingTxs.2, inv.pendingTxs_increasing⟩

end TomoChain.Pool
