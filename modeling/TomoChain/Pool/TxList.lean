import Mathlib
import TomoChain.Lib.SortedMap
import TomoChain.Lib.SortPerm

set_option autoImplicit false

/-! The per-account transaction lists of the order pool (`core/order_tx_list.go`):
`ordertxSortedMap`, a map from nonce to transaction with a heap of the nonces and a
cache of the nonce-sorted transactions, and `ordertxList` over it.

The heap is kept as the sorted list of the nonces it holds. The code reads it only
through its least element (`(*m.index)[0]`, `heap.Pop`), by a search for a nonce
(`heap.Remove`), and after `sort.Sort`, so every heap with the same elements behaves
alike. A Go map iterated with `range` is iterated in key order.

`Valid` is the representation invariant: the heap holds exactly the nonces of the
items, each item is filed under its own nonce, and a cache is the items in nonce
order. Each operation keeps it, and each operation that removes transactions
splits the items into those kept and those it returns (`SortedMap.Splits`). -/
namespace TomoChain.Pool

open Lib

variable {Tx : Type}

/-- `ordertxSortedMap`. -/
structure OrdertxSortedMap (Tx : Type) where
  items : SortedMap Nat Tx
  index : List Nat
  cache : Option (List Tx)

namespace OrdertxSortedMap

section Operations

variable (nonce : Tx → Nat)

/-- `newOrderTxSortedMap`. -/
def new : OrdertxSortedMap Tx := ⟨.empty, [], none⟩

/-- `Get`. -/
def get (m : OrdertxSortedMap Tx) (n : Nat) : Option Tx := m.items.get? n

/-- `Put`: a nonce not yet held is pushed on the heap; the cache is dropped. -/
def put (m : OrdertxSortedMap Tx) (tx : Tx) : OrdertxSortedMap Tx :=
  let n := nonce tx
  { items := m.items.insert n tx
    index := if (m.items.get? n).isNone then m.index.orderedInsert (· ≤ ·) n else m.index
    cache := none }

/-- The loop of `Forward`: the least nonce popped while it is below `threshold`. -/
def forwardLoop (threshold : Nat) : List Nat → SortedMap Nat Tx → List Tx → List Nat × SortedMap Nat Tx × List Tx
  | [], items, removed => ([], items, removed)
  | n :: rest, items, removed =>
    if n < threshold then forwardLoop threshold rest (items.erase n) (removed ++ (items.get? n).toList)
    else (n :: rest, items, removed)

/-- `Forward`: the transactions below `threshold` removed; the cache loses its front. -/
def forward (m : OrdertxSortedMap Tx) (threshold : Nat) : List Tx × OrdertxSortedMap Tx :=
  let popped := forwardLoop threshold m.index m.items []
  (popped.2.2, { items := popped.2.1, index := popped.1, cache := m.cache.map (·.drop popped.2.2.length) })

/-- The loop of `Filter` over the items, deleting those the filter selects. -/
def filterLoop (filter : Tx → Bool) : List (Nat × Tx) → SortedMap Nat Tx → List Tx → SortedMap Nat Tx × List Tx
  | [], items, removed => (items, removed)
  | entry :: rest, items, removed =>
    if filter entry.2 then filterLoop filter rest (items.erase entry.1) (removed ++ [entry.2])
    else filterLoop filter rest items removed

/-- `Filter`: if something was removed, the heap is rebuilt and the cache dropped. -/
def filter (m : OrdertxSortedMap Tx) (filter : Tx → Bool) : List Tx × OrdertxSortedMap Tx :=
  let filtered := filterLoop filter m.items.entries m.items []
  if filtered.2.isEmpty then (filtered.2, { m with items := filtered.1 })
  else (filtered.2, { items := filtered.1, index := filtered.1.keys, cache := none })

/-- The loop of `Cap`: from `size` down to `threshold`, the item at the `size - 1`-th
nonce of the sorted heap dropped. -/
def capLoop (index : List Nat) (threshold : Nat) : Nat → SortedMap Nat Tx → List Tx → SortedMap Nat Tx × List Tx
  | 0, items, drops => (items, drops)
  | size + 1, items, drops =>
    if threshold < size + 1 then
      match index[size]? with
      | some n => capLoop index threshold size (items.erase n) (drops ++ (items.get? n).toList)
      | none => capLoop index threshold size items drops
    else (items, drops)

/-- `Cap`: the highest nonces beyond `threshold` dropped; the cache loses its back. -/
def cap (m : OrdertxSortedMap Tx) (threshold : Nat) : List Tx × OrdertxSortedMap Tx :=
  if m.items.size ≤ threshold then ([], m) else
  let capped := capLoop m.index threshold m.items.size m.items []
  (capped.2,
    { items := capped.1, index := m.index.take threshold
      cache := m.cache.map fun sorted => sorted.take (sorted.length - capped.2.length) })

/-- `Remove`. -/
def remove (m : OrdertxSortedMap Tx) (n : Nat) : Bool × OrdertxSortedMap Tx :=
  match m.items.get? n with
  | none => (false, m)
  | some _ => (true, { items := m.items.erase n, index := m.index.erase n, cache := none })

/-- The loop of `Ready`: the least nonce popped while it is the next one expected. -/
def readyLoop : Nat → List Nat → SortedMap Nat Tx → List Tx → List Nat × SortedMap Nat Tx × List Tx
  | _, [], items, ready => ([], items, ready)
  | next, n :: rest, items, ready =>
    if n = next then readyLoop (next + 1) rest (items.erase n) (ready ++ (items.get? n).toList)
    else (n :: rest, items, ready)

/-- `Ready`: the run of consecutive nonces from the least one, if that is at most `start`. -/
def ready (m : OrdertxSortedMap Tx) (start : Nat) : List Tx × OrdertxSortedMap Tx :=
  match m.index with
  | [] => ([], m)
  | first :: _ =>
    if first > start then ([], m) else
    let popped := readyLoop first m.index m.items []
    (popped.2.2, { items := popped.2.1, index := popped.1, cache := none })

/-- `Len`. -/
def len (m : OrdertxSortedMap Tx) : Nat := m.items.size

/-- `Flatten`: the cache, made by sorting the items by nonce when there is none. -/
def flatten (m : OrdertxSortedMap Tx) : List Tx × OrdertxSortedMap Tx :=
  match m.cache with
  | some sorted => (sorted, m)
  | none =>
    let sorted := sortByKey nonce m.items.values
    (sorted, { m with cache := some sorted })

/-- The representation invariant. -/
structure Valid (m : OrdertxSortedMap Tx) : Prop where
  indexed : m.index = m.items.keys
  filed : ∀ entry ∈ m.items.entries, nonce entry.2 = entry.1
  cached : ∀ sorted, m.cache = some sorted → sorted = m.items.values

end Operations

/-! ## The loops on sorted entries -/

/-- `Forward`'s loop over the keys of the items pops the entries below the threshold. -/
theorem forwardLoop_spec (threshold : Nat) :
    ∀ (entries : List (Nat × Tx)) (items : SortedMap Nat Tx) (removed : List Tx), items.entries = entries →
      let popped := forwardLoop threshold (entries.map Prod.fst) items removed
      popped.1 = (entries.dropWhile (·.1 < threshold)).map Prod.fst ∧
        popped.2.1.entries = entries.dropWhile (·.1 < threshold) ∧
        popped.2.2 = removed ++ (entries.takeWhile (·.1 < threshold)).map Prod.snd := by
  intro entries
  induction entries with
  | nil =>
    intro items removed same
    simp [forwardLoop, same]
  | cons head rest ih =>
    intro items removed same
    simp only [List.map_cons, forwardLoop]
    by_cases below : head.1 < threshold
    · have erased : (items.erase head.1).entries = rest := by
        simp [SortedMap.erase, same]
      have found : items.get? head.1 = some head.2 := by
        simp [SortedMap.get?, same]
      obtain ⟨index, kept, popped⟩ := ih (items.erase head.1) (removed ++ (items.get? head.1).toList) erased
      rw [if_pos below]
      refine ⟨?_, ?_, ?_⟩
      · simpa [List.dropWhile_cons, below] using index
      · simpa [List.dropWhile_cons, below] using kept
      · simpa [List.takeWhile_cons, below, found] using popped
    · rw [if_neg below]
      simp [below, same]

/-- `Ready`'s loop over the keys of the items pops a prefix of the entries. -/
theorem readyLoop_spec :
    ∀ (entries : List (Nat × Tx)) (next : Nat) (items : SortedMap Nat Tx) (ready : List Tx),
      items.entries = entries →
      ∃ count, let popped := readyLoop next (entries.map Prod.fst) items ready
        popped.1 = (entries.drop count).map Prod.fst ∧ popped.2.1.entries = entries.drop count ∧
          popped.2.2 = ready ++ (entries.take count).map Prod.snd := by
  intro entries
  induction entries with
  | nil =>
    intro next items ready same
    exact ⟨0, by simp [readyLoop, same]⟩
  | cons head rest ih =>
    intro next items ready same
    by_cases expected : head.1 = next
    · have erased : (items.erase head.1).entries = rest := by
        simp [SortedMap.erase, same]
      have found : items.get? head.1 = some head.2 := by
        simp [SortedMap.get?, same]
      obtain ⟨count, index, kept, popped⟩ :=
        ih (next + 1) (items.erase head.1) (ready ++ (items.get? head.1).toList) erased
      refine ⟨count + 1, ?_⟩
      simp only [List.map_cons, readyLoop, if_pos expected]
      refine ⟨index, kept, ?_⟩
      simpa [found] using popped
    · refine ⟨0, ?_⟩
      simp [readyLoop, expected, same]

/-- `Filter`'s loop deletes the selected entries from a map that holds the entries
already passed, in front of those still to come. -/
theorem filterLoop_spec (select : Tx → Bool) :
    ∀ (rest passed : List (Nat × Tx)) (items : SortedMap Nat Tx) (removed : List Tx),
      items.entries = passed ++ rest →
      let filtered := filterLoop select rest items removed
      filtered.1.entries = passed ++ rest.filter (fun entry => !select entry.2) ∧
        filtered.2 = removed ++ (rest.filter (fun entry => select entry.2)).map Prod.snd := by
  intro rest
  induction rest with
  | nil =>
    intro passed items removed same
    simp [filterLoop, same]
  | cons head tail ih =>
    intro passed items removed same
    have fresh : head.1 ∉ passed.map Prod.fst := by
      have sorted := items.sorted
      rw [same] at sorted
      exact not_mem_keys_of_sorted_append sorted
    by_cases selected : select head.2
    · have erased : (items.erase head.1).entries = passed ++ tail := by
        simp [SortedMap.erase, same, eraseEntry_append_of_not_mem fresh]
      obtain ⟨kept, gone⟩ := ih passed (items.erase head.1) (removed ++ [head.2]) erased
      simp only [filterLoop, if_pos selected]
      refine ⟨?_, ?_⟩
      · simpa [List.filter_cons, selected] using kept
      · simpa [List.filter_cons, selected] using gone
    · have moved : items.entries = (passed ++ [head]) ++ tail := by simp [same]
      obtain ⟨kept, gone⟩ := ih (passed ++ [head]) items removed moved
      simp only [filterLoop, if_neg selected]
      refine ⟨?_, ?_⟩
      · simpa [List.filter_cons, selected] using kept
      · simpa [List.filter_cons, selected] using gone

/-- `Cap`'s loop over the sorted keys drops the entries from position `size - 1` down
to `threshold`. -/
theorem capLoop_spec (entries : List (Nat × Tx)) (threshold : Nat) :
    ∀ size, size ≤ entries.length → ∀ (items : SortedMap Nat Tx) (drops : List Tx), items.entries = entries.take size →
      let capped := capLoop (entries.map Prod.fst) threshold size items drops
      capped.1.entries = entries.take (min threshold size) ∧
        capped.2 = drops ++ (((entries.take size).drop threshold).map Prod.snd).reverse := by
  intro size
  induction size with
  | zero =>
    intro _ items drops same
    simp [capLoop, same]
  | succ size ih =>
    intro within items drops same
    have inside : size < entries.length := by omega
    have split : entries.take (size + 1) = entries.take size ++ [entries[size]] := by
      rw [List.take_add_one, List.getElem?_eq_getElem inside, Option.toList_some]
    rw [split] at same
    by_cases dropping : threshold < size + 1
    · have fresh : entries[size].1 ∉ (entries.take size).map Prod.fst := by
        have sorted := items.sorted
        rw [same] at sorted
        exact not_mem_keys_of_sorted_append sorted
      have erased : (items.erase entries[size].1).entries = entries.take size := by
        show eraseEntry entries[size].1 items.entries = _
        rw [same, eraseEntry_append_of_not_mem fresh, eraseEntry_cons_self, List.append_nil]
      have found : items.get? entries[size].1 = some entries[size].2 := by
        show lookupEntry entries[size].1 items.entries = _
        rw [same, lookupEntry_append_of_not_mem fresh, lookupEntry_cons_self]
      have key : (entries.map Prod.fst)[size]? = some entries[size].1 := by
        simp [inside]
      obtain ⟨kept, dropped⟩ := ih (by omega) (items.erase entries[size].1) (drops ++ [entries[size].2]) erased
      simp only [capLoop, if_pos dropping, key, found, Option.toList_some]
      refine ⟨?_, ?_⟩
      · rw [kept, Nat.min_eq_left (by omega), Nat.min_eq_left (by omega)]
      · rw [dropped, split, List.drop_append_of_le_length (by simp; omega)]
        simp
    · simp only [capLoop, if_neg dropping]
      refine ⟨?_, ?_⟩
      · rw [same, ← split, Nat.min_eq_right (by omega)]
      · rw [split, List.drop_eq_nil_of_le (by simp; omega)]
        simp

/-! ## Each operation keeps the invariant -/

section Invariant

variable {nonce : Tx → Nat}

theorem new_valid : (new : OrdertxSortedMap Tx).Valid nonce :=
  ⟨rfl, by simp [new, SortedMap.empty], by simp [new]⟩

theorem Valid.index_eq {m : OrdertxSortedMap Tx} (valid : m.Valid nonce) :
    m.index = m.items.entries.map Prod.fst := valid.indexed

/-- The items of a valid map are in strictly increasing nonce order. -/
theorem Valid.values_increasing {m : OrdertxSortedMap Tx} (valid : m.Valid nonce) :
    m.items.values.Pairwise (fun a b => nonce a < nonce b) := by
  have increasing := m.items.sorted
  unfold SortedMap.values
  rw [List.pairwise_map]
  refine List.Pairwise.imp_of_mem ?_ increasing
  intro a b inA inB lt
  rw [valid.filed a inA, valid.filed b inB]
  exact lt

theorem put_valid {m : OrdertxSortedMap Tx} (valid : m.Valid nonce) (tx : Tx) : (m.put nonce tx).Valid nonce where
  indexed := by
    simp only [put]
    cases missing : m.items.get? (nonce tx) with
    | none => simp [valid.indexed, SortedMap.keys_insert_of_get?_none missing]
    | some old => simp [valid.indexed, SortedMap.keys_insert_of_get?_some missing]
  filed := by
    intro entry member
    rcases mem_insertEntry member with new | old
    · rw [new]
    · exact valid.filed entry old
  cached := by simp [put]

theorem forward_valid {m : OrdertxSortedMap Tx} (valid : m.Valid nonce) (threshold : Nat) :
    (m.forward threshold).2.Valid nonce ∧ SortedMap.Splits m.items (m.forward threshold).2.items (m.forward threshold).1 := by
  obtain ⟨index, kept, popped⟩ := forwardLoop_spec threshold m.items.entries m.items [] rfl
  simp only [forward, valid.index_eq]
  set below : Nat × Tx → Bool := fun entry => decide (entry.1 < threshold)
  have whole : m.items.entries.takeWhile below ++ m.items.entries.dropWhile below = m.items.entries :=
    List.takeWhile_append_dropWhile
  refine ⟨⟨?_, ?_, ?_⟩, ?_⟩
  · rw [index, SortedMap.keys, kept]
  · intro entry member
    rw [kept] at member
    exact valid.filed entry ((List.dropWhile_sublist below).subset member)
  · intro sorted cached
    obtain ⟨cache, present, rfl⟩ := Option.map_eq_some_iff.mp cached
    have rest : m.items.entries.drop (m.items.entries.takeWhile below).length =
        m.items.entries.dropWhile below := by
      calc m.items.entries.drop (m.items.entries.takeWhile below).length
          = (m.items.entries.takeWhile below ++ m.items.entries.dropWhile below).drop
              (m.items.entries.takeWhile below).length := by rw [whole]
        _ = m.items.entries.dropWhile below := List.drop_left
    rw [valid.cached cache present, popped, SortedMap.values, SortedMap.values, kept, ← rest]
    simp
  · refine ⟨m.items.entries.takeWhile below, ?_, by rw [popped, List.nil_append]⟩
    rw [kept]
    exact (List.perm_append_comm.trans (List.Perm.of_eq whole)).symm

theorem ready_valid {m : OrdertxSortedMap Tx} (valid : m.Valid nonce) (start : Nat) :
    (m.ready start).2.Valid nonce ∧ SortedMap.Splits m.items (m.ready start).2.items (m.ready start).1 := by
  cases heap : m.index with
  | nil =>
    simp only [ready, heap]
    exact ⟨valid, .refl _⟩
  | cons first rest =>
    by_cases late : first > start
    · simp only [ready, heap, if_pos late]
      exact ⟨valid, .refl _⟩
    · obtain ⟨count, index, kept, popped⟩ := readyLoop_spec m.items.entries first m.items [] rfl
      rw [← valid.index_eq, heap] at index kept popped
      simp only [ready, heap, if_neg late]
      refine ⟨⟨?_, ?_, ?_⟩, ?_⟩
      · rw [index, SortedMap.keys, kept]
      · intro entry member
        rw [kept] at member
        exact valid.filed entry ((List.drop_sublist count _).subset member)
      · intro sorted cached
        cases cached
      · refine ⟨m.items.entries.take count, ?_, by rw [popped, List.nil_append]⟩
        rw [kept]
        exact (List.perm_append_comm.trans (List.Perm.of_eq (List.take_append_drop count _))).symm

theorem cap_valid {m : OrdertxSortedMap Tx} (valid : m.Valid nonce) (threshold : Nat) :
    (m.cap threshold).2.Valid nonce ∧ SortedMap.Splits m.items (m.cap threshold).2.items (m.cap threshold).1 := by
  by_cases small : m.items.size ≤ threshold
  · simp only [cap, if_pos small]
    exact ⟨valid, .refl _⟩
  · have size : m.items.size = m.items.entries.length := rfl
    obtain ⟨kept, dropped⟩ :=
      capLoop_spec m.items.entries threshold m.items.size (by rw [size]) m.items [] (by rw [size, List.take_length])
    rw [← valid.index_eq, Nat.min_eq_left (by omega)] at kept
    rw [← valid.index_eq, List.take_of_length_le (by rw [size]), List.nil_append] at dropped
    simp only [cap, if_neg small]
    refine ⟨⟨?_, ?_, ?_⟩, ?_⟩
    · rw [SortedMap.keys, kept, valid.index_eq, List.map_take]
    · intro entry member
      rw [kept] at member
      exact valid.filed entry ((List.take_sublist threshold _).subset member)
    · intro sorted cached
      obtain ⟨cache, present, rfl⟩ := Option.map_eq_some_iff.mp cached
      -- the cache loses as many transactions from its back as were dropped
      have count : cache.length - (capLoop m.index threshold m.items.size m.items []).2.length = threshold := by
        rw [valid.cached cache present, dropped, SortedMap.values]
        simp only [List.length_reverse, List.length_map, List.length_drop]
        omega
      rw [count, valid.cached cache present, SortedMap.values, SortedMap.values, kept, List.map_take]
    · refine ⟨(m.items.entries.drop threshold).reverse, ?_, by rw [dropped, List.map_reverse]⟩
      rw [kept]
      exact (List.Perm.of_eq (List.take_append_drop _ _).symm).trans
        (List.Perm.append_left _ (List.reverse_perm _).symm)

theorem filter_valid {m : OrdertxSortedMap Tx} (valid : m.Valid nonce) (select : Tx → Bool) :
    (m.filter select).2.Valid nonce ∧ SortedMap.Splits m.items (m.filter select).2.items (m.filter select).1 := by
  obtain ⟨kept, removed⟩ := filterLoop_spec select m.items.entries [] m.items [] rfl
  rw [List.nil_append] at kept removed
  have splits : SortedMap.Splits m.items (filterLoop select m.items.entries m.items []).1
      (filterLoop select m.items.entries m.items []).2 := by
    refine ⟨m.items.entries.filter (fun entry => select entry.2), ?_, by rw [removed]⟩
    rw [kept]
    exact (List.filter_append_perm _ _).symm.trans List.perm_append_comm
  dsimp only [filter]
  split
  · next nothing =>
    -- nothing was selected, so the loop left the items as they were
    have none : m.items.entries.filter (fun entry => select entry.2) = [] := by
      rw [removed] at nothing
      simpa using nothing
    have same : (filterLoop select m.items.entries m.items []).1 = m.items := by
      apply SortedMap.ext
      rw [kept, List.filter_eq_self]
      intro entry member
      have unselected := List.filter_eq_nil_iff.mp none entry member
      simpa using unselected
    refine ⟨?_, splits⟩
    rw [same]
    exact valid
  · refine ⟨⟨rfl, ?_, ?_⟩, splits⟩
    · intro entry member
      rw [kept] at member
      exact valid.filed entry ((List.filter_sublist).subset member)
    · intro sorted cached
      cases cached

theorem remove_valid {m : OrdertxSortedMap Tx} (valid : m.Valid nonce) (n : Nat) :
    (m.remove n).2.Valid nonce ∧ SortedMap.Splits m.items (m.remove n).2.items (m.get n).toList := by
  cases found : m.items.get? n with
  | none =>
    simp only [remove, get, found, Option.toList_none]
    exact ⟨valid, .refl _⟩
  | some tx =>
    simp only [remove, get, found, Option.toList_some]
    refine ⟨⟨?_, ?_, ?_⟩, ?_⟩
    · rw [SortedMap.keys_erase, valid.indexed]
    · intro entry member
      exact valid.filed entry (mem_of_mem_eraseEntry member)
    · intro sorted cached
      cases cached
    · refine ⟨[(n, tx)], ?_, rfl⟩
      exact (SortedMap.entries_perm_of_get? found).trans (List.perm_append_singleton _ _).symm

/-- `Flatten` returns the items in nonce order and keeps the items. -/
theorem flatten_valid {m : OrdertxSortedMap Tx} (valid : m.Valid nonce) :
    (m.flatten nonce).1 = m.items.values ∧ (m.flatten nonce).2.Valid nonce ∧ (m.flatten nonce).2.items = m.items := by
  have sorted : sortByKey nonce m.items.values = m.items.values :=
    List.Pairwise.insertionSort_eq (valid.values_increasing.imp le_of_lt)
  cases cached : m.cache with
  | some cache =>
    have result : m.flatten nonce = (cache, m) := by simp [flatten, cached]
    rw [result]
    exact ⟨valid.cached cache cached, valid, rfl⟩
  | none =>
    have result : m.flatten nonce = (m.items.values, { m with cache := some m.items.values }) := by
      simp [flatten, cached, sorted]
    rw [result]
    refine ⟨rfl, ⟨valid.indexed, valid.filed, ?_⟩, rfl⟩
    intro values same
    cases same
    rfl

end Invariant

end OrdertxSortedMap

/-- `ordertxList`: the transactions of one account. The pending lists are `strict`:
removing a transaction there also removes every later one. -/
structure OrdertxList (Tx : Type) where
  strict : Bool
  txs : OrdertxSortedMap Tx

namespace OrdertxList

section Operations

variable (nonce : Tx → Nat)

/-- `newOrderTxList`. -/
def new (strict : Bool) : OrdertxList Tx := ⟨strict, .new⟩

/-- `Overlaps`: a transaction with the same nonce is held. -/
def overlaps (l : OrdertxList Tx) (tx : Tx) : Bool := (l.txs.get (nonce tx)).isSome

/-- `Add`: the transaction is stored in any case, and the one of the same nonce it
replaces is returned. -/
def add (l : OrdertxList Tx) (tx : Tx) : (Bool × Option Tx) × OrdertxList Tx :=
  ((true, l.txs.get (nonce tx)), { l with txs := l.txs.put nonce tx })

/-- `Forward`. -/
def forward (l : OrdertxList Tx) (threshold : Nat) : List Tx × OrdertxList Tx :=
  let forwarded := l.txs.forward threshold
  (forwarded.1, { l with txs := forwarded.2 })

/-- `Cap`. -/
def cap (l : OrdertxList Tx) (threshold : Nat) : List Tx × OrdertxList Tx :=
  let capped := l.txs.cap threshold
  (capped.1, { l with txs := capped.2 })

/-- `Remove`: in strict mode the transactions after the removed nonce are filtered
out and returned. -/
def remove (l : OrdertxList Tx) (tx : Tx) : (Bool × List Tx) × OrdertxList Tx :=
  let n := nonce tx
  let removed := l.txs.remove n
  if !removed.1 then ((false, []), { l with txs := removed.2 })
  else if l.strict then
    let invalids := removed.2.filter fun tx => decide (nonce tx > n)
    ((true, invalids.1), { l with txs := invalids.2 })
  else ((true, []), { l with txs := removed.2 })

/-- `Ready`. -/
def ready (l : OrdertxList Tx) (start : Nat) : List Tx × OrdertxList Tx :=
  let readied := l.txs.ready start
  (readied.1, { l with txs := readied.2 })

/-- `Len`. -/
def len (l : OrdertxList Tx) : Nat := l.txs.len

/-- `Empty`. -/
def empty (l : OrdertxList Tx) : Bool := l.len == 0

/-- `Flatten`. -/
def flatten (l : OrdertxList Tx) : List Tx × OrdertxList Tx :=
  let flattened := l.txs.flatten nonce
  (flattened.1, { l with txs := flattened.2 })

end Operations

/-- The transactions a list holds, in nonce order. -/
def held (l : OrdertxList Tx) : List Tx := l.txs.items.values

section Invariant

variable {nonce : Tx → Nat}

/-- The representation invariant of the list's map. -/
def Valid (nonce : Tx → Nat) (l : OrdertxList Tx) : Prop := l.txs.Valid nonce

theorem new_valid (strict : Bool) : (new strict : OrdertxList Tx).Valid nonce := OrdertxSortedMap.new_valid

@[simp] theorem held_new (strict : Bool) : (new strict : OrdertxList Tx).held = [] := rfl

@[simp] theorem strict_new (strict : Bool) : (new strict : OrdertxList Tx).strict = strict := rfl

/-- A list's operation that removes transactions: its result is valid, and it splits
the held transactions into those it keeps and those it returns. -/
structure Removes (nonce : Tx → Nat) (l l' : OrdertxList Tx) (removed : List Tx) : Prop where
  valid : l'.Valid nonce
  splits : SortedMap.Splits l.txs.items l'.txs.items removed
  strict : l'.strict = l.strict

theorem Removes.held_perm {l l' : OrdertxList Tx} {removed : List Tx} (removes : Removes nonce l l' removed) :
    l.held.Perm (l'.held ++ removed) :=
  removes.splits.values_perm

theorem forward_removes {l : OrdertxList Tx} (valid : l.Valid nonce) (threshold : Nat) :
    Removes nonce l (l.forward threshold).2 (l.forward threshold).1 :=
  ⟨(OrdertxSortedMap.forward_valid valid threshold).1, (OrdertxSortedMap.forward_valid valid threshold).2, rfl⟩

theorem cap_removes {l : OrdertxList Tx} (valid : l.Valid nonce) (threshold : Nat) :
    Removes nonce l (l.cap threshold).2 (l.cap threshold).1 :=
  ⟨(OrdertxSortedMap.cap_valid valid threshold).1, (OrdertxSortedMap.cap_valid valid threshold).2, rfl⟩

theorem ready_removes {l : OrdertxList Tx} (valid : l.Valid nonce) (start : Nat) :
    Removes nonce l (l.ready start).2 (l.ready start).1 :=
  ⟨(OrdertxSortedMap.ready_valid valid start).1, (OrdertxSortedMap.ready_valid valid start).2, rfl⟩

/-- `Remove` takes out the transaction held at the nonce of `tx`, if any, and in strict
mode the invalidated ones it returns. -/
theorem remove_removes {l : OrdertxList Tx} (valid : l.Valid nonce) (tx : Tx) :
    (l.remove nonce tx).1.1 = (l.txs.get (nonce tx)).isSome ∧
      Removes nonce l (l.remove nonce tx).2 ((l.txs.get (nonce tx)).toList ++ (l.remove nonce tx).1.2) := by
  obtain ⟨removedValid, removedSplits⟩ := OrdertxSortedMap.remove_valid valid (nonce tx)
  have flag : (l.txs.remove (nonce tx)).1 = (l.txs.get (nonce tx)).isSome := by
    unfold OrdertxSortedMap.remove OrdertxSortedMap.get
    split <;> simp_all
  unfold remove
  by_cases found : (l.txs.get (nonce tx)).isSome
  · have present : (l.txs.remove (nonce tx)).1 = true := by rw [flag, found]
    cases strictness : l.strict with
    | true =>
      obtain ⟨filteredValid, filteredSplits⟩ :=
        OrdertxSortedMap.filter_valid removedValid (fun other => decide (nonce other > nonce tx))
      simp only [present, Bool.not_true, Bool.false_eq_true, if_false, if_true, found]
      exact ⟨trivial, filteredValid, removedSplits.trans filteredSplits, strictness.symm⟩
    | false =>
      simp only [present, Bool.not_true, Bool.false_eq_true, if_false, found, List.append_nil]
      exact ⟨trivial, removedValid, removedSplits, strictness.symm⟩
  · have absent : (l.txs.remove (nonce tx)).1 = false := by simpa [flag] using found
    simp only [absent, Bool.not_false, if_true]
    refine ⟨by simpa using found, removedValid, ?_, rfl⟩
    have none : l.txs.get (nonce tx) = none := by simpa using found
    simpa [none] using removedSplits

/-- Only a strict list returns invalidated transactions. -/
theorem remove_invalids_of_not_strict (l : OrdertxList Tx) (tx : Tx) (loose : l.strict = false) :
    (l.remove nonce tx).1.2 = [] := by
  unfold remove
  simp only [loose, Bool.false_eq_true, if_false]
  split <;> rfl

/-- `Add` keeps the list valid, stores `tx` at its nonce and returns the transaction it
replaces. -/
theorem add_spec {l : OrdertxList Tx} (valid : l.Valid nonce) (tx : Tx) :
    (l.add nonce tx).1 = (true, l.txs.get (nonce tx)) ∧ (l.add nonce tx).2.Valid nonce ∧
      (l.add nonce tx).2.txs.items = l.txs.items.insert (nonce tx) tx ∧ (l.add nonce tx).2.strict = l.strict :=
  ⟨rfl, OrdertxSortedMap.put_valid valid tx, rfl, rfl⟩

/-- `Flatten` returns the held transactions and keeps the list as it is, up to its cache. -/
theorem flatten_spec {l : OrdertxList Tx} (valid : l.Valid nonce) :
    (l.flatten nonce).1 = l.held ∧ Removes nonce l (l.flatten nonce).2 [] := by
  obtain ⟨sorted, flatValid, same⟩ := OrdertxSortedMap.flatten_valid valid
  refine ⟨sorted, flatValid, ?_, rfl⟩
  show SortedMap.Splits l.txs.items (l.txs.flatten nonce).2.items []
  rw [same]
  exact .refl _

/-- `Flatten` fills the cache only: the list holds the same transactions. -/
theorem held_flatten {l : OrdertxList Tx} (valid : l.Valid nonce) : (l.flatten nonce).2.held = l.held := by
  show (l.txs.flatten nonce).2.items.values = l.txs.items.values
  rw [(OrdertxSortedMap.flatten_valid valid).2.2]

theorem Valid.held_increasing {l : OrdertxList Tx} (valid : l.Valid nonce) :
    l.held.Pairwise (fun a b => nonce a < nonce b) :=
  OrdertxSortedMap.Valid.values_increasing valid

theorem Removes.refl {l : OrdertxList Tx} (valid : l.Valid nonce) : Removes nonce l l [] :=
  ⟨valid, .refl _, rfl⟩

theorem Removes.mem_held {l l' : OrdertxList Tx} {removed : List Tx} (removes : Removes nonce l l' removed)
    {tx : Tx} (member : tx ∈ l'.held ∨ tx ∈ removed) : tx ∈ l.held := by
  refine removes.held_perm.symm.subset ?_
  rcases member with kept | gone
  · exact List.mem_append_left _ kept
  · exact List.mem_append_right _ gone

/-- A valid list holds each of its transactions at the transaction's nonce. -/
theorem Valid.get_of_mem {l : OrdertxList Tx} (valid : l.Valid nonce) {tx : Tx} (member : tx ∈ l.held) :
    l.txs.get (nonce tx) = some tx := by
  obtain ⟨entry, stored, rfl⟩ := List.mem_map.mp member
  rw [OrdertxSortedMap.get, valid.filed entry stored, SortedMap.get?_eq_some_iff]
  exact stored

theorem mem_held_of_get {l : OrdertxList Tx} {n : Nat} {tx : Tx} (found : l.txs.get n = some tx) :
    tx ∈ l.held :=
  List.mem_map.mpr ⟨(n, tx), (SortedMap.get?_eq_some_iff _ _ _).mp found, rfl⟩

/-- The nonces of the removed transactions are free in the list that is left. -/
theorem Removes.get_removed {l l' : OrdertxList Tx} {removed : List Tx} (removes : Removes nonce l l' removed)
    (valid : l.Valid nonce) {tx : Tx} (member : tx ∈ removed) : l'.txs.get (nonce tx) = none := by
  obtain ⟨key, found, gone⟩ := removes.splits.mem_removed member
  have filed : nonce tx = key := valid.filed (key, tx) ((SortedMap.get?_eq_some_iff _ _ _).mp found)
  rw [OrdertxSortedMap.get, filed]
  exact gone

/-- A list only loses nonces by an operation that removes transactions. -/
theorem Removes.get_isSome {l l' : OrdertxList Tx} {removed : List Tx} (removes : Removes nonce l l' removed)
    {n : Nat} (kept : (l'.txs.get n).isSome) : (l.txs.get n).isSome := by
  obtain ⟨tx, found⟩ := Option.isSome_iff_exists.mp kept
  have before : l.txs.get n = some tx := removes.splits.get?_of_get? found
  rw [before]
  rfl

theorem held_eq_nil_of_empty {l : OrdertxList Tx} (empty : l.empty = true) : l.held = [] := by
  have none : l.txs.items.size = 0 := by
    simpa [OrdertxList.empty, len, OrdertxSortedMap.len] using empty
  exact SortedMap.values_eq_nil_of_size none

theorem mem_held_add (nonce : Tx → Nat) (l : OrdertxList Tx) (tx : Tx) : tx ∈ (l.add nonce tx).2.held := by
  have stored : (l.add nonce tx).2.txs.get (nonce tx) = some tx := SortedMap.get?_insert_self _ _ _
  exact mem_held_of_get stored

/-- `Add` puts `tx` in place of the transaction held at its nonce, if any. -/
theorem held_add_perm (nonce : Tx → Nat) (l : OrdertxList Tx) (tx : Tx) :
    ((l.add nonce tx).2.held ++ (l.txs.get (nonce tx)).toList).Perm (tx :: l.held) := by
  have inserted := SortedMap.values_insert_perm l.txs.items (nonce tx) tx
  have before := SortedMap.values_perm_get? l.txs.items (nonce tx)
  show ((l.txs.items.insert (nonce tx) tx).values ++ (l.txs.items.get? (nonce tx)).toList).Perm
    (tx :: l.txs.items.values)
  refine (inserted.append_right _).trans ?_
  refine List.Perm.cons tx ?_
  exact List.perm_append_comm.trans before.symm

theorem add_get (l : OrdertxList Tx) (tx : Tx) (n : Nat) :
    (l.add nonce tx).2.txs.get n = if nonce tx = n then some tx else l.txs.get n :=
  SortedMap.get?_insert _ _ _ _

end Invariant

end OrdertxList

end TomoChain.Pool
