import Mathlib

set_option autoImplicit false

/-! Finite maps kept as the list of their entries in strictly increasing key order.
There is one list per map, so a map is a plain value that can be compared and
evaluated, and the least and the greatest key are the first and the last entry:
this is what a trie with byte-string keys offers (`TryGetBestLeftKeyAndValue`,
`TryGetBestRightKeyAndValue`), and what Go maps are used for when only their
contents matter. -/
namespace TomoChain.Lib

variable {κ ν : Type} [LinearOrder κ]

/-! ## Entry lists -/

/-- The entries with `value` written at `key`. -/
def insertEntry (key : κ) (value : ν) : List (κ × ν) → List (κ × ν)
  | [] => [(key, value)]
  | entry :: rest =>
    if key < entry.1 then (key, value) :: entry :: rest
    else if key = entry.1 then (key, value) :: rest
    else entry :: insertEntry key value rest

theorem insertEntry_nil (key : κ) (value : ν) : insertEntry key value [] = [(key, value)] := rfl

theorem insertEntry_cons (key : κ) (value : ν) (entry : κ × ν) (rest : List (κ × ν)) :
    insertEntry key value (entry :: rest) =
      if key < entry.1 then (key, value) :: entry :: rest
      else if key = entry.1 then (key, value) :: rest
      else entry :: insertEntry key value rest := rfl

/-- The entries without the first one at `key`. -/
def eraseEntry (key : κ) : List (κ × ν) → List (κ × ν)
  | [] => []
  | entry :: rest => if entry.1 = key then rest else entry :: eraseEntry key rest

theorem eraseEntry_nil (key : κ) : eraseEntry key ([] : List (κ × ν)) = [] := rfl

theorem eraseEntry_cons (key : κ) (entry : κ × ν) (rest : List (κ × ν)) :
    eraseEntry key (entry :: rest) = if entry.1 = key then rest else entry :: eraseEntry key rest := rfl

/-- The value of the first entry at `key`. -/
def lookupEntry (key : κ) : List (κ × ν) → Option ν
  | [] => none
  | entry :: rest => if entry.1 = key then some entry.2 else lookupEntry key rest

theorem lookupEntry_nil (key : κ) : lookupEntry key ([] : List (κ × ν)) = none := rfl

theorem lookupEntry_cons (key : κ) (entry : κ × ν) (rest : List (κ × ν)) :
    lookupEntry key (entry :: rest) = if entry.1 = key then some entry.2 else lookupEntry key rest := rfl

/-- Keys strictly increasing along the list. -/
def KeysSorted (entries : List (κ × ν)) : Prop := entries.Pairwise (fun a b => a.1 < b.1)

theorem keysSorted_cons {entry : κ × ν} {rest : List (κ × ν)} :
    KeysSorted (entry :: rest) ↔ (∀ other ∈ rest, entry.1 < other.1) ∧ KeysSorted rest :=
  List.pairwise_cons

theorem mem_insertEntry {key : κ} {value : ν} {entries : List (κ × ν)} {entry : κ × ν}
    (member : entry ∈ insertEntry key value entries) : entry = (key, value) ∨ entry ∈ entries := by
  induction entries with
  | nil => simpa [insertEntry_nil, insertEntry_cons] using member
  | cons head rest ih =>
    simp only [insertEntry_cons] at member
    split at member
    · simpa using member
    · split at member
      · rcases List.mem_cons.mp member with here | there
        · exact .inl here
        · exact .inr (List.mem_cons_of_mem _ there)
      · rcases List.mem_cons.mp member with here | there
        · exact .inr (here ▸ List.mem_cons_self)
        · rcases ih there with new | old
          · exact .inl new
          · exact .inr (List.mem_cons_of_mem _ old)

theorem mem_of_mem_eraseEntry {key : κ} {entries : List (κ × ν)} {entry : κ × ν}
    (member : entry ∈ eraseEntry key entries) : entry ∈ entries := by
  induction entries with
  | nil => simp [eraseEntry_nil] at member
  | cons head rest ih =>
    simp only [eraseEntry_cons] at member
    split at member
    · exact List.mem_cons_of_mem _ member
    · rcases List.mem_cons.mp member with here | there
      · exact here ▸ List.mem_cons_self
      · exact List.mem_cons_of_mem _ (ih there)

theorem keysSorted_insertEntry (key : κ) (value : ν) {entries : List (κ × ν)}
    (sorted : KeysSorted entries) : KeysSorted (insertEntry key value entries) := by
  induction entries with
  | nil => exact List.pairwise_singleton _ _
  | cons head rest ih =>
    rw [keysSorted_cons] at sorted
    obtain ⟨below, sortedRest⟩ := sorted
    simp only [insertEntry_cons]
    split
    · next lt =>
      refine List.Pairwise.cons ?_ (List.Pairwise.cons below sortedRest)
      intro entry member
      rcases List.mem_cons.mp member with here | there
      · exact here ▸ lt
      · exact lt_trans lt (below entry there)
    · split
      · next _ same =>
        refine List.Pairwise.cons ?_ sortedRest
        intro entry member
        exact same ▸ below entry member
      · next notLt notSame =>
        refine List.Pairwise.cons ?_ (ih sortedRest)
        intro entry member
        rcases mem_insertEntry member with new | old
        · rw [new]
          exact lt_of_le_of_ne (not_lt.mp notLt) (Ne.symm notSame)
        · exact below entry old

theorem keysSorted_eraseEntry (key : κ) {entries : List (κ × ν)}
    (sorted : KeysSorted entries) : KeysSorted (eraseEntry key entries) := by
  induction entries with
  | nil => exact List.Pairwise.nil
  | cons head rest ih =>
    rw [keysSorted_cons] at sorted
    simp only [eraseEntry_cons]
    split
    · exact sorted.2
    · refine List.Pairwise.cons ?_ (ih sorted.2)
      intro entry member
      exact sorted.1 entry (mem_of_mem_eraseEntry member)

theorem lookupEntry_insertEntry (key other : κ) (value : ν) (entries : List (κ × ν)) :
    lookupEntry other (insertEntry key value entries) =
      if key = other then some value else lookupEntry other entries := by
  induction entries with
  | nil => simp [insertEntry_nil, lookupEntry_nil, lookupEntry_cons]
  | cons head rest ih =>
    simp only [insertEntry_cons]
    split
    · simp [lookupEntry_cons]
    · split
      · next _ same =>
        subst same
        by_cases here : head.1 = other <;> simp [lookupEntry_cons, here]
      · next _ notSame =>
        by_cases here : head.1 = other
        · subst here
          simp [lookupEntry_cons, notSame]
        · simp [lookupEntry_cons, here, ih]

/-- In a sorted list no key after the head is the head's key. -/
theorem lookupEntry_of_lt {key : κ} {head : κ × ν} {rest : List (κ × ν)}
    (below : ∀ entry ∈ rest, head.1 < entry.1) (le : key ≤ head.1) : lookupEntry key rest = none := by
  induction rest with
  | nil => rfl
  | cons next tail ih =>
    have lt := below next List.mem_cons_self
    simp only [lookupEntry_cons, if_neg (ne_of_gt (lt_of_le_of_lt le lt))]
    exact ih (fun entry member => below entry (List.mem_cons_of_mem _ member))

theorem lookupEntry_eraseEntry {key other : κ} {entries : List (κ × ν)} (sorted : KeysSorted entries) :
    lookupEntry other (eraseEntry key entries) =
      if key = other then none else lookupEntry other entries := by
  induction entries with
  | nil => simp [eraseEntry_nil, lookupEntry_nil]
  | cons head rest ih =>
    rw [keysSorted_cons] at sorted
    simp only [eraseEntry_cons]
    split
    · next here =>
      subst here
      by_cases same : head.1 = other
      · subst same
        simp [lookupEntry_of_lt sorted.1 le_rfl]
      · simp [lookupEntry_cons, same]
    · next notHere =>
      rw [lookupEntry_cons, lookupEntry_cons, ih sorted.2]
      by_cases same : key = other
      · subst same
        simp [notHere]
      · simp [same]

theorem lookupEntry_head_le {key : κ} {entries : List (κ × ν)} {head : κ × ν} {value : ν}
    (sorted : KeysSorted (head :: entries)) (found : lookupEntry key (head :: entries) = some value) :
    head.1 ≤ key := by
  rw [keysSorted_cons] at sorted
  by_contra above
  rw [lookupEntry_cons, if_neg (fun same => above (le_of_eq same)),
    lookupEntry_of_lt sorted.1 (le_of_lt (not_le.mp above))] at found
  cases found

theorem lookupEntry_eq_some_iff {key : κ} {value : ν} {entries : List (κ × ν)} (sorted : KeysSorted entries) :
    lookupEntry key entries = some value ↔ (key, value) ∈ entries := by
  induction entries with
  | nil => simp [lookupEntry_nil]
  | cons head rest ih =>
    rw [keysSorted_cons] at sorted
    by_cases here : head.1 = key
    · subst here
      rw [lookupEntry_cons, if_pos rfl]
      constructor
      · intro same
        cases same
        exact List.mem_cons_self
      · intro member
        rcases List.mem_cons.mp member with first | later
        · exact congrArg some (congrArg Prod.snd first).symm
        · exact absurd (sorted.1 _ later) (lt_irrefl _)
    · rw [lookupEntry_cons, if_neg here, ih sorted.2]
      constructor
      · exact List.mem_cons_of_mem _
      · intro member
        rcases List.mem_cons.mp member with first | later
        · exact absurd (congrArg Prod.fst first) (Ne.symm here)
        · exact later

/-- Erasing an entry that is there leaves the other entries, in order. -/
theorem perm_eraseEntry {key : κ} {value : ν} {entries : List (κ × ν)}
    (found : lookupEntry key entries = some value) :
    entries.Perm ((key, value) :: eraseEntry key entries) := by
  induction entries with
  | nil => cases found
  | cons head rest ih =>
    simp only [lookupEntry_cons] at found
    simp only [eraseEntry_cons]
    split at found
    · next here =>
      cases found
      rw [if_pos here, ← here]
    · next notHere =>
      rw [if_neg notHere]
      exact ((ih found).cons head).trans (List.Perm.swap _ _ _)

theorem eraseEntry_of_lookupEntry_none {key : κ} {entries : List (κ × ν)}
    (missing : lookupEntry key entries = none) : eraseEntry key entries = entries := by
  induction entries with
  | nil => rfl
  | cons head rest ih =>
    simp only [lookupEntry_cons] at missing
    simp only [eraseEntry_cons]
    split at missing
    · cases missing
    · next notHere => rw [if_neg notHere, ih missing]

theorem perm_insertEntry (key : κ) (value : ν) {entries : List (κ × ν)} (sorted : KeysSorted entries) :
    (insertEntry key value entries).Perm ((key, value) :: eraseEntry key entries) := by
  induction entries with
  | nil => exact List.Perm.refl _
  | cons head rest ih =>
    rw [keysSorted_cons] at sorted
    simp only [insertEntry_cons, eraseEntry_cons]
    split
    · next lt =>
      rw [if_neg (ne_of_gt lt)]
      -- every key of `rest` is above `head.1 > key`, so erasing `key` changes nothing
      have unchanged : eraseEntry key rest = rest :=
        eraseEntry_of_lookupEntry_none (lookupEntry_of_lt sorted.1 (le_of_lt lt))
      rw [unchanged]
    · split
      · next _ same => rw [if_pos same.symm]
      · next _ notSame =>
        rw [if_neg (Ne.symm notSame)]
        exact ((ih sorted.2).cons head).trans (List.Perm.swap _ _ _)

theorem eraseEntry_append_of_not_mem {key : κ} {front : List (κ × ν)} (absent : key ∉ front.map Prod.fst)
    (back : List (κ × ν)) : eraseEntry key (front ++ back) = front ++ eraseEntry key back := by
  induction front with
  | nil => rfl
  | cons head rest ih =>
    simp only [List.map_cons, List.mem_cons, not_or] at absent
    simp only [List.cons_append, eraseEntry_cons, if_neg (Ne.symm absent.1), ih absent.2]

theorem lookupEntry_append_of_not_mem {key : κ} {front : List (κ × ν)} (absent : key ∉ front.map Prod.fst)
    (back : List (κ × ν)) : lookupEntry key (front ++ back) = lookupEntry key back := by
  induction front with
  | nil => rfl
  | cons head rest ih =>
    simp only [List.map_cons, List.mem_cons, not_or] at absent
    simp only [List.cons_append, lookupEntry_cons, if_neg (Ne.symm absent.1), ih absent.2]

@[simp] theorem eraseEntry_cons_self (entry : κ × ν) (rest : List (κ × ν)) :
    eraseEntry entry.1 (entry :: rest) = rest := by
  simp [eraseEntry_cons]

@[simp] theorem lookupEntry_cons_self (entry : κ × ν) (rest : List (κ × ν)) :
    lookupEntry entry.1 (entry :: rest) = some entry.2 := by
  simp [lookupEntry_cons]

/-- In sorted entries a later key is not among the keys before it. -/
theorem not_mem_keys_of_sorted_append {front back : List (κ × ν)} {entry : κ × ν}
    (sorted : KeysSorted (front ++ entry :: back)) : entry.1 ∉ front.map Prod.fst := by
  rw [KeysSorted, List.pairwise_append] at sorted
  intro member
  obtain ⟨before, inFront, same⟩ := List.mem_map.mp member
  exact absurd (sorted.2.2 before inFront entry List.mem_cons_self) (by rw [same]; exact lt_irrefl _)

/-! ## Maps -/

/-- A finite map from `κ` to `ν`: its entries in strictly increasing key order. -/
structure SortedMap (κ ν : Type) [LinearOrder κ] where
  entries : List (κ × ν)
  sorted : KeysSorted entries

namespace SortedMap

/-- The map with no entries. -/
def empty : SortedMap κ ν := ⟨[], List.Pairwise.nil⟩

/-- `m[key]`. -/
def get? (m : SortedMap κ ν) (key : κ) : Option ν := lookupEntry key m.entries

/-- `m[key] = value`. -/
def insert (m : SortedMap κ ν) (key : κ) (value : ν) : SortedMap κ ν :=
  ⟨insertEntry key value m.entries, keysSorted_insertEntry key value m.sorted⟩

/-- `delete(m, key)`. -/
def erase (m : SortedMap κ ν) (key : κ) : SortedMap κ ν :=
  ⟨eraseEntry key m.entries, keysSorted_eraseEntry key m.sorted⟩

/-- Whether `key` has an entry. -/
def contains (m : SortedMap κ ν) (key : κ) : Bool := (m.get? key).isSome

/-- The entry of the least key. -/
def least? (m : SortedMap κ ν) : Option (κ × ν) := m.entries.head?

/-- The entry of the greatest key. -/
def greatest? (m : SortedMap κ ν) : Option (κ × ν) := m.entries.getLast?

/-- The keys in increasing order. -/
def keys (m : SortedMap κ ν) : List κ := m.entries.map Prod.fst

/-- The number of entries. -/
def size (m : SortedMap κ ν) : Nat := m.entries.length

@[simp] theorem get?_empty (key : κ) : (empty : SortedMap κ ν).get? key = none := rfl

@[simp] theorem get?_insert (m : SortedMap κ ν) (key other : κ) (value : ν) :
    (m.insert key value).get? other = if key = other then some value else m.get? other :=
  lookupEntry_insertEntry key other value m.entries

@[simp] theorem get?_erase (m : SortedMap κ ν) (key other : κ) :
    (m.erase key).get? other = if key = other then none else m.get? other :=
  lookupEntry_eraseEntry m.sorted

theorem get?_insert_self (m : SortedMap κ ν) (key : κ) (value : ν) :
    (m.insert key value).get? key = some value := by simp

theorem get?_insert_of_ne (m : SortedMap κ ν) {key other : κ} (value : ν) (different : key ≠ other) :
    (m.insert key value).get? other = m.get? other := by simp [different]

@[simp] theorem contains_iff (m : SortedMap κ ν) (key : κ) :
    m.contains key = true ↔ ∃ value, m.get? key = some value := by
  simp [contains, Option.isSome_iff_exists]

/-- The least entry is an entry, and no key is below it. -/
theorem least?_spec {m : SortedMap κ ν} {key : κ} {value : ν} (least : m.least? = some (key, value)) :
    m.get? key = some value ∧ ∀ other found, m.get? other = some found → key ≤ other := by
  obtain ⟨entries, sorted⟩ := m
  cases entries with
  | nil => cases least
  | cons head rest =>
    simp only [least?, List.head?_cons, Option.some.injEq] at least
    subst least
    refine ⟨by simp [get?, lookupEntry_cons], fun other found lookup => ?_⟩
    exact lookupEntry_head_le sorted lookup

/-- Only the empty map has no least entry. -/
theorem least?_eq_none {m : SortedMap κ ν} (none : m.least? = Option.none) (key : κ) :
    m.get? key = Option.none := by
  obtain ⟨entries, sorted⟩ := m
  cases entries with
  | nil => rfl
  | cons head rest => cases none

theorem ext {m m' : SortedMap κ ν} (same : m.entries = m'.entries) : m = m' := by
  cases m
  cases m'
  cases same
  rfl

theorem keys_erase (m : SortedMap κ ν) (key : κ) : (m.erase key).keys = m.keys.erase key := by
  obtain ⟨entries, sorted⟩ := m
  simp only [keys, erase]
  clear sorted
  induction entries with
  | nil => rfl
  | cons head rest ih =>
    simp only [eraseEntry_cons, List.map_cons, List.erase_cons]
    by_cases here : head.1 = key
    · simp [here]
    · simp [here, ih]

theorem keys_insert_of_get?_none {m : SortedMap κ ν} {key : κ} (missing : m.get? key = none) (value : ν) :
    (m.insert key value).keys = m.keys.orderedInsert (· ≤ ·) key := by
  obtain ⟨entries, sorted⟩ := m
  simp only [keys, insert, get?] at missing ⊢
  induction entries with
  | nil => rfl
  | cons head rest ih =>
    rw [keysSorted_cons] at sorted
    simp only [lookupEntry_cons] at missing
    split at missing
    · cases missing
    · next notHere =>
      simp only [insertEntry_cons, List.map_cons, List.orderedInsert]
      by_cases below : key < head.1
      · simp [below, le_of_lt below]
      · have above : ¬ key ≤ head.1 := fun le => below (lt_of_le_of_ne le (Ne.symm notHere))
        simp [below, Ne.symm notHere, above, ih sorted.2 missing]

theorem keys_insert_of_get?_some {m : SortedMap κ ν} {key : κ} {old : ν} (found : m.get? key = some old)
    (value : ν) : (m.insert key value).keys = m.keys := by
  obtain ⟨entries, sorted⟩ := m
  simp only [keys, insert, get?] at found ⊢
  induction entries with
  | nil => cases found
  | cons head rest ih =>
    rw [keysSorted_cons] at sorted
    simp only [lookupEntry_cons] at found
    simp only [insertEntry_cons]
    split at found
    · next here =>
      rw [if_neg (not_lt.mpr (le_of_eq here)), if_pos here.symm]
      simp [here]
    · next notHere =>
      have above : ¬ key < head.1 := by
        intro below
        rw [lookupEntry_of_lt sorted.1 (le_of_lt below)] at found
        cases found
      rw [if_neg above, if_neg (Ne.symm notHere)]
      simp [ih sorted.2 found]

/-- The values in increasing key order. -/
def values (m : SortedMap κ ν) : List ν := m.entries.map Prod.snd

theorem get?_eq_some_iff (m : SortedMap κ ν) (key : κ) (value : ν) :
    m.get? key = some value ↔ (key, value) ∈ m.entries :=
  lookupEntry_eq_some_iff m.sorted

/-- The entries with their values mapped are the keys, each with its mapped value. -/
theorem entries_map_eq_keys_map {μ : Type} (m : SortedMap κ ν) (f : ν → μ) (d : μ) :
    m.entries.map (fun entry => (entry.1, f entry.2)) = m.keys.map fun key => (key, ((m.get? key).map f).getD d) := by
  rw [keys, List.map_map]
  refine List.map_congr_left fun entry mem => ?_
  rw [Function.comp_apply, (get?_eq_some_iff m entry.1 entry.2).mpr mem]
  rfl

theorem entries_perm_of_get? {m : SortedMap κ ν} {key : κ} {value : ν} (found : m.get? key = some value) :
    m.entries.Perm ((key, value) :: (m.erase key).entries) :=
  perm_eraseEntry found

theorem erase_of_get?_none {m : SortedMap κ ν} {key : κ} (missing : m.get? key = none) :
    (m.erase key).entries = m.entries :=
  eraseEntry_of_lookupEntry_none missing

theorem entries_insert_perm (m : SortedMap κ ν) (key : κ) (value : ν) :
    (m.insert key value).entries.Perm ((key, value) :: (m.erase key).entries) :=
  perm_insertEntry key value m.sorted

theorem eraseEntry_insertEntry (key : κ) (value : ν) {entries : List (κ × ν)} (sorted : KeysSorted entries) :
    eraseEntry key (insertEntry key value entries) = eraseEntry key entries := by
  induction entries with
  | nil => simp [insertEntry_nil, eraseEntry_nil, eraseEntry_cons]
  | cons head rest ih =>
    rw [keysSorted_cons] at sorted
    simp only [insertEntry_cons]
    split
    · next below =>
      -- `key` is below every key of the list, so it has no entry to erase
      have unchanged : eraseEntry key rest = rest :=
        eraseEntry_of_lookupEntry_none (lookupEntry_of_lt sorted.1 (le_of_lt below))
      simp [eraseEntry_cons, ne_of_gt below, unchanged]
    · split
      · next _ same => simp [eraseEntry_cons, same]
      · next _ notSame => simp [eraseEntry_cons, Ne.symm notSame, ih sorted.2]

theorem erase_insert_self (m : SortedMap κ ν) (key : κ) (value : ν) : (m.insert key value).erase key = m.erase key :=
  ext (eraseEntry_insertEntry key value m.sorted)

theorem keys_nodup (m : SortedMap κ ν) : m.keys.Nodup := by
  have increasing : m.keys.Pairwise (· < ·) := List.pairwise_map.mpr m.sorted
  exact increasing.imp ne_of_lt

/-- `new` keeps some of the entries of `old`; `removed` holds the values of the others. -/
def Splits (old new : SortedMap κ ν) (removed : List ν) : Prop :=
  ∃ dropped : List (κ × ν), old.entries.Perm (new.entries ++ dropped) ∧ dropped.map Prod.snd = removed

theorem Splits.refl (m : SortedMap κ ν) : Splits m m [] := ⟨[], by simp, rfl⟩

/-- Two splits in a row split off what both removed. -/
theorem Splits.trans {first middle last : SortedMap κ ν} {removed removedAfter : List ν}
    (split : Splits first middle removed) (next : Splits middle last removedAfter) :
    Splits first last (removed ++ removedAfter) := by
  obtain ⟨dropped, perm, rfl⟩ := split
  obtain ⟨droppedAfter, permAfter, rfl⟩ := next
  refine ⟨dropped ++ droppedAfter, ?_, by rw [List.map_append]⟩
  exact (perm.trans (permAfter.append_right dropped)).trans (by
    rw [List.append_assoc]
    exact List.Perm.append_left _ List.perm_append_comm)

theorem Splits.values_perm {old new : SortedMap κ ν} {removed : List ν} (split : Splits old new removed) :
    old.values.Perm (new.values ++ removed) := by
  obtain ⟨dropped, perm, rfl⟩ := split
  have mapped := perm.map Prod.snd
  rw [List.map_append] at mapped
  exact mapped

/-- A key dropped by a split has no entry left. -/
theorem Splits.get?_dropped {old new : SortedMap κ ν} {removed : List ν} (split : Splits old new removed)
    {key : κ} {value : ν} (found : old.get? key = some value) (gone : new.get? key = none) :
    value ∈ removed := by
  obtain ⟨dropped, perm, rfl⟩ := split
  rw [get?_eq_some_iff] at found
  rcases List.mem_append.mp (perm.subset found) with kept | lost
  · rw [← get?_eq_some_iff] at kept
    rw [kept] at gone
    cases gone
  · exact List.mem_map.mpr ⟨_, lost, rfl⟩

theorem Splits.get?_of_get? {old new : SortedMap κ ν} {removed : List ν} (split : Splits old new removed)
    {key : κ} {value : ν} (found : new.get? key = some value) : old.get? key = some value := by
  obtain ⟨dropped, perm, -⟩ := split
  rw [get?_eq_some_iff] at found ⊢
  exact perm.symm.subset (List.mem_append_left _ found)

/-- The keys of the dropped entries are no longer in the map. -/
theorem Splits.mem_removed {old new : SortedMap κ ν} {removed : List ν} (split : Splits old new removed)
    {value : ν} (member : value ∈ removed) : ∃ key, old.get? key = some value ∧ new.get? key = none := by
  obtain ⟨dropped, perm, rfl⟩ := split
  obtain ⟨⟨key, value⟩, lost, rfl⟩ := List.mem_map.mp member
  have inOld : (key, value) ∈ old.entries := perm.symm.subset (List.mem_append_right _ lost)
  refine ⟨key, (get?_eq_some_iff _ _ _).mpr inOld, ?_⟩
  cases kept : new.get? key with
  | none => rfl
  | some other =>
    rw [get?_eq_some_iff] at kept
    have twice : (new.entries ++ dropped).map Prod.fst |>.Nodup := by
      have nodup := keys_nodup old
      exact (perm.map Prod.fst).nodup_iff.mp nodup
    rw [List.map_append] at twice
    have left : key ∈ new.entries.map Prod.fst := List.mem_map.mpr ⟨_, kept, rfl⟩
    have right : key ∈ dropped.map Prod.fst := List.mem_map.mpr ⟨_, lost, rfl⟩
    exact absurd rfl ((List.nodup_append.mp twice).2.2 key left key right)

/-! ### Values -/

theorem values_perm_of_get? {m : SortedMap κ ν} {key : κ} {value : ν} (found : m.get? key = some value) :
    m.values.Perm (value :: (m.erase key).values) := by
  have mapped := (entries_perm_of_get? found).map Prod.snd
  simpa only [values, List.map_cons] using mapped

theorem values_insert_perm (m : SortedMap κ ν) (key : κ) (value : ν) :
    (m.insert key value).values.Perm (value :: (m.erase key).values) := by
  have mapped := (entries_insert_perm m key value).map Prod.snd
  simpa only [values, List.map_cons] using mapped

/-- The values split into the one at `key`, if any, and the others. -/
theorem values_perm_get? (m : SortedMap κ ν) (key : κ) :
    m.values.Perm ((m.get? key).toList ++ (m.erase key).values) := by
  cases found : m.get? key with
  | none =>
    have unchanged : (m.erase key).values = m.values := by
      simp only [values, erase_of_get?_none found]
    rw [unchanged]
    rfl
  | some value => exact values_perm_of_get? found

theorem values_erase_insert_perm (m : SortedMap κ ν) (key : κ) (value : ν) :
    ((m.insert key value).erase key).values.Perm (m.erase key).values := by
  have found := values_perm_of_get? (get?_insert_self m key value)
  exact (found.symm.trans (values_insert_perm m key value)).cons_inv

@[simp] theorem values_empty : (empty : SortedMap κ ν).values = [] := rfl

theorem mem_values_insert {m : SortedMap κ ν} {key : κ} {value v : ν} (mem : v ∈ (m.insert key value).values) :
    v = value ∨ v ∈ m.values := by
  rcases List.mem_cons.mp ((values_insert_perm m key value).subset mem) with rfl | erased
  · exact .inl rfl
  · exact .inr ((values_perm_get? m key).symm.subset (List.mem_append_right _ erased))

/-- Writing `value` at `key` replaces the old value's share of a total over the values
by the new one's. -/
theorem sum_map_values_insert (f : ν → Nat) (m : SortedMap κ ν) (key : κ) (value : ν) :
    ((m.insert key value).values.map f).sum + ((m.get? key).map f).getD 0 = (m.values.map f).sum + f value := by
  have written := ((values_insert_perm m key value).map f).sum_eq
  have before := ((values_perm_get? m key).map f).sum_eq
  rw [List.map_cons, List.sum_cons] at written
  rw [List.map_append, List.sum_append] at before
  rw [written, before]
  cases m.get? key <;> simp <;> omega

/-- `sum_map_values_insert` for values that are numbers. -/
theorem sum_values_insert (m : SortedMap κ Nat) (key : κ) (value : Nat) :
    (m.insert key value).values.sum + (m.get? key).getD 0 = m.values.sum + value := by
  simpa using sum_map_values_insert id m key value

theorem sum_values_insert_le (m : SortedMap κ Nat) (key : κ) (value : Nat) :
    (m.insert key value).values.sum ≤ m.values.sum + value := by
  have written := sum_values_insert m key value
  omega

theorem values_eq_nil_of_size {m : SortedMap κ ν} (none : m.size = 0) : m.values = [] := by
  simpa [values, size] using none

/-! ### Writing a list into a map -/

section FoldInsert

variable {α : Type} (key : α → κ) (value : α → ν)

/-- A key that no element names keeps its value through the writes. -/
theorem get?_foldl_insert_of_not_mem (l : List α) (m : SortedMap κ ν) {k : κ} (absent : k ∉ l.map key) :
    (l.foldl (fun m a => m.insert (key a) (value a)) m).get? k = m.get? k := by
  induction l generalizing m with
  | nil => rfl
  | cons a rest ih =>
    rw [List.map_cons, List.mem_cons, not_or] at absent
    rw [List.foldl_cons, ih _ absent.2, get?_insert, if_neg (Ne.symm absent.1)]

/-- After writes under distinct keys, each element's key holds what was written for it. -/
theorem get?_foldl_insert_of_mem {l : List α} (distinct : (l.map key).Nodup) (m : SortedMap κ ν) {a : α}
    (mem : a ∈ l) : (l.foldl (fun m a => m.insert (key a) (value a)) m).get? (key a) = some (value a) := by
  induction l generalizing m with
  | nil => cases mem
  | cons b rest ih =>
    rw [List.map_cons, List.nodup_cons] at distinct
    rw [List.foldl_cons]
    rcases List.mem_cons.mp mem with rfl | later
    · rw [get?_foldl_insert_of_not_mem key value rest _ distinct.1, get?_insert_self]
    · exact ih distinct.2 _ later

/-- The writes add at most what they write to a total over the values. -/
theorem sum_map_values_foldl_insert_le (f : ν → Nat) (l : List α) (m : SortedMap κ ν) :
    ((l.foldl (fun m a => m.insert (key a) (value a)) m).values.map f).sum ≤
      (m.values.map f).sum + (l.map fun a => f (value a)).sum := by
  induction l generalizing m with
  | nil => simp
  | cons a rest ih =>
    have written := sum_map_values_insert f m (key a) (value a)
    have later := ih (m.insert (key a) (value a))
    rw [List.foldl_cons, List.map_cons, List.sum_cons]
    omega

end FoldInsert

/-! ### A map that indexes a list of values by a key of each value -/

/-- `m` holds exactly the values `values`, each under its own key. -/
structure Indexes (key : ν → κ) (m : SortedMap κ ν) (values : List ν) : Prop where
  perm : m.values.Perm values
  keyed : ∀ entry ∈ m.entries, key entry.2 = entry.1

section Indexes

variable {key : ν → κ} {m : SortedMap κ ν} {values : List ν}

theorem Indexes.empty : Indexes key (empty : SortedMap κ ν) [] := ⟨by simp, by simp [SortedMap.empty]⟩

theorem Indexes.perm_right {values' : List ν} (index : Indexes key m values) (perm : values.Perm values') :
    Indexes key m values' :=
  ⟨index.perm.trans perm, index.keyed⟩

theorem Indexes.get?_of_mem (index : Indexes key m values) {value : ν} (member : value ∈ values) :
    m.get? (key value) = some value := by
  obtain ⟨entry, stored, rfl⟩ := List.mem_map.mp (index.perm.symm.subset member)
  rw [get?_eq_some_iff, index.keyed entry stored]
  exact stored

theorem Indexes.mem_of_get? (index : Indexes key m values) {k : κ} {value : ν} (found : m.get? k = some value) :
    value ∈ values ∧ key value = k := by
  rw [get?_eq_some_iff] at found
  exact ⟨index.perm.subset (List.mem_map.mpr ⟨_, found, rfl⟩), index.keyed _ found⟩

/-- No two indexed values share a key. -/
theorem Indexes.nodup (index : Indexes key m values) : (values.map key).Nodup := by
  have same : m.values.map key = m.keys := by
    simp only [SortedMap.values, keys, List.map_map]
    exact List.map_congr_left fun entry stored => index.keyed entry stored
  have distinct := m.keys_nodup
  rw [← same] at distinct
  exact (index.perm.map key).nodup_iff.mp distinct

theorem Indexes.erase {value : ν} {rest : List ν} (index : Indexes key m (value :: rest)) :
    Indexes key (m.erase (key value)) rest := by
  have found := index.get?_of_mem List.mem_cons_self
  refine ⟨((values_perm_of_get? found).symm.trans index.perm).cons_inv, ?_⟩
  intro entry stored
  exact index.keyed entry (mem_of_mem_eraseEntry stored)

theorem Indexes.eraseAll {removed rest : List ν} (index : Indexes key m (removed ++ rest)) :
    Indexes key (removed.foldl (fun m value => m.erase (key value)) m) rest := by
  induction removed generalizing m with
  | nil => simpa using index
  | cons value more ih => exact ih (Indexes.erase index)

theorem Indexes.insert_new {value : ν} (index : Indexes key m values) (fresh : m.get? (key value) = none) :
    Indexes key (m.insert (key value) value) (value :: values) := by
  have unchanged : (m.erase (key value)).values = m.values := by
    simp only [SortedMap.values, erase_of_get?_none fresh]
  refine ⟨(values_insert_perm m (key value) value).trans ?_, ?_⟩
  · rw [unchanged]
    exact index.perm.cons value
  · intro entry stored
    rcases mem_insertEntry stored with new | old
    · rw [new]
    · exact index.keyed entry old

theorem Indexes.insert_mem {value : ν} (index : Indexes key m values) (member : value ∈ values) :
    Indexes key (m.insert (key value) value) values := by
  have found := index.get?_of_mem member
  refine ⟨((values_insert_perm m (key value) value).trans (values_perm_of_get? found).symm).trans index.perm, ?_⟩
  intro entry stored
  rcases mem_insertEntry stored with new | old
  · rw [new]
  · exact index.keyed entry old

/-- Dropping the key of a replaced value, as in `if old != nil { delete(m, key(old)) }`. -/
def eraseOld (key : ν → κ) (m : SortedMap κ ν) (old : Option ν) : SortedMap κ ν :=
  old.elim m fun value => m.erase (key value)

theorem Indexes.eraseOld {old : Option ν} {rest : List ν} (index : Indexes key m (old.toList ++ rest)) :
    Indexes key (m.eraseOld key old) rest := by
  cases old with
  | none => simpa [SortedMap.eraseOld] using index
  | some value => exact Indexes.erase index

/-- A value stored in place of `old`, when its key is not indexed yet. -/
theorem Indexes.replace_fresh {value : ν} {old : Option ν} {values' : List ν} (index : Indexes key m values)
    (fresh : m.get? (key value) = none) (held : ∀ o ∈ old.toList, o ∈ values)
    (shape : (values' ++ old.toList).Perm (value :: values)) :
    Indexes key ((m.eraseOld key old).insert (key value) value) values' := by
  cases old with
  | none =>
    have dropped : m.eraseOld key none = m := rfl
    rw [dropped]
    exact (index.insert_new fresh).perm_right (by simpa using shape.symm)
  | some o =>
    obtain ⟨front, back, split⟩ := List.append_of_mem (held o List.mem_cons_self)
    have moved : values.Perm (o :: (front ++ back)) := by
      rw [split]
      exact List.perm_middle
    have erased : Indexes key (m.erase (key o)) (front ++ back) := Indexes.erase (index.perm_right moved)
    have stillFresh : (m.erase (key o)).get? (key value) = none := by
      rw [get?_erase]
      split <;> simp [fresh]
    have inserted := erased.insert_new stillFresh
    refine inserted.perm_right ?_
    -- `values' ++ [o]` and `value :: o :: (front ++ back)` have the same elements
    have both : (values' ++ [o]).Perm ((value :: (front ++ back)) ++ [o]) := by
      refine shape.trans ?_
      exact ((moved.cons value).trans (List.Perm.swap o value _)).trans (List.perm_append_singleton _ _).symm
    exact (List.perm_append_right_iff _).mp both |>.symm

/-- A value stored in place of `old`, when it is indexed already. -/
theorem Indexes.replace_mem {value : ν} {old : Option ν} {values' : List ν} (index : Indexes key m values)
    (shape : (old.toList ++ values').Perm values) (member : value ∈ values') :
    Indexes key (m.eraseOld key old) values' ∧ (m.eraseOld key old).get? (key value) = some value := by
  have dropped : Indexes key (m.eraseOld key old) values' := Indexes.eraseOld (index.perm_right shape.symm)
  exact ⟨dropped, dropped.get?_of_mem member⟩

end Indexes

end SortedMap

end TomoChain.Lib
