import Mathlib
import TomoChain.Contracts.ValidatorStake
import TomoChain.Core.StatedbUtils
import TomoChain.Lib.SolidityLayout

set_option autoImplicit false

/-! Where the variables of `TomoValidator` sit in the contract's storage, by the layout
Solidity gives them, and what the Go readers of `core/state/statedb_utils.go` read
there. `Stores` says that a storage holds a state in that layout: the slot numbers
come from the declarations through `layout`, the mapping and array slots from
`keccak256`. The readers compute the same slots from `slotValidatorMapping` and fixed
member offsets, so on such a storage they return the owner, the cap and the stakes
exactly; a voter list is read as long as its length modulo `2 ^ 64`, since `GetVoters`
takes the length as a `uint64`. -/
namespace TomoChain.Contracts

open Lib State

/-- The state variables of `TomoValidator` in declaration order. -/
def validatorVariables : List (String × StorageType) :=
  [("withdrawsState", .whole), ("validatorsState", .whole), ("voters", .whole), ("candidates", .whole),
    ("candidateCount", .value 32), ("minCandidateCap", .value 32), ("minVoterCap", .value 32),
    ("maxValidatorNumber", .value 32), ("candidateWithdrawDelay", .value 32), ("voterWithdrawDelay", .value 32)]

/-- The members of `struct ValidatorState` in declaration order: `owner` and
`isCandidate` share a slot. -/
def validatorStateMembers : List (String × StorageType) :=
  [("owner", .value 20), ("isCandidate", .value 1), ("cap", .value 32), ("voters", .whole)]

/-- The table of the Go code is the layout of the declarations. -/
theorem slotValidatorMapping_layout :
    slotValidatorMapping = (validatorVariables.map Prod.fst).zip (layout (validatorVariables.map Prod.snd)) := by
  decide

variable (keccak256 : List UInt8 → Hash)

/-- The first slot of `validatorsState[candidate]`. -/
def validatorBase (candidate : Address) : Nat :=
  mappingLocation keccak256 candidate.val (slotOfItem validatorVariables "validatorsState")

/-- The slot of the member `member` of `validatorsState[candidate]`. -/
def validatorMemberLocation (candidate : Address) (member : String) : Nat :=
  memberLocation (validatorBase keccak256 candidate) (slotOfItem validatorStateMembers member)

/-- The slot of `voters[candidate]`, which holds the length of the array. -/
def votersLocation (candidate : Address) : Nat :=
  mappingLocation keccak256 candidate.val (slotOfItem validatorVariables "voters")

/-- The word at a slot. -/
def wordAt (storage : Hash → Hash) (slot : Nat) : Nat := (storage (Fin.ofNat _ slot)).val

/-- A dynamic array of addresses at `slot` holds `entries`: its length at `slot`, and
each entry in the low 20 bytes of its own slot. -/
structure StoresAddresses (storage : Hash → Hash) (slot : Nat) (entries : List Address) : Prop where
  length : wordAt storage slot = entries.length
  element : ∀ (i : Nat) (h : i < entries.length),
    packedValue (wordAt storage (arrayElementLocation keccak256 slot i)) 0 20 = entries[i].val

/-- The storage of the contract holds the state `s` in the Solidity layout. -/
structure Stores (storage : Hash → Hash) (s : TomoValidator) : Prop where
  owner : ∀ candidate, packedValue (wordAt storage (validatorMemberLocation keccak256 candidate "owner"))
    (offsetOfItem validatorStateMembers "owner") 20 = (s.validatorsState candidate).owner.val
  isCandidate : ∀ candidate, packedValue (wordAt storage (validatorMemberLocation keccak256 candidate "isCandidate"))
    (offsetOfItem validatorStateMembers "isCandidate") 1 = if (s.validatorsState candidate).isCandidate then 1 else 0
  cap : ∀ candidate, wordAt storage (validatorMemberLocation keccak256 candidate "cap") = (s.validatorsState candidate).cap
  voterCap : ∀ candidate voter,
    wordAt storage (mappingLocation keccak256 voter.val (validatorMemberLocation keccak256 candidate "voters")) =
      (s.validatorsState candidate).voters voter
  voters : ∀ candidate, StoresAddresses keccak256 storage (votersLocation keccak256 candidate) (s.voters candidate)
  candidates : StoresAddresses keccak256 storage (slotOfItem validatorVariables "candidates") s.candidates

/-! ## The readers against the layout -/

theorem wordToAddress_val (word : Hash) : (wordToAddress word).val = packedValue word.val 0 20 := by
  unfold wordToAddress bytesToAddress Hash.toBytes packedValue
  rw [length_toBytesBE, show (32 : Nat) = 12 + 20 from rfl, Nat.add_sub_cancel, drop_toBytesBE, ofBytesBE_toBytesBE]
  simp

theorem bigToHash_natCast (n : Nat) : bigToHash n = Fin.ofNat _ n := by
  simp [bigToHash]

/-- The Go code adds a member offset as a `big.Int` and keeps the low 32 bytes, which
is the wrapped sum of the EVM. -/
theorem bigToHash_add (base offset : Nat) : bigToHash (base + offset : Nat) = Fin.ofNat _ (memberLocation base offset) := by
  rw [bigToHash_natCast]
  apply Fin.ext
  simp [memberLocation]

theorem getLocMappingAtKey_hash (key : Address) (slot : Nat) (fits : slot < 2 ^ 256) :
    getLocMappingAtKey keccak256 key.hash slot = mappingLocation keccak256 key.val slot := by
  unfold getLocMappingAtKey mappingLocation Hash.toBytes
  rw [bigToHash_of_lt slot fits]
  simp [Address.hash]

/-- Each name of the Go table reads the slot of the layout. -/
theorem slotOf_slotValidatorMapping (name : String) :
    slotOf slotValidatorMapping name = slotOfItem validatorVariables name := by
  rw [slotOf, slotValidatorMapping_layout]
  rfl

/-- The fixed offsets of the Go readers are the layout of `ValidatorState`: the owner in
the low bytes of the first slot, the cap in the second, the stakes at the third. -/
theorem validatorStateMembers_layout :
    slotOfItem validatorStateMembers "owner" = 0 ∧ offsetOfItem validatorStateMembers "owner" = 0 ∧
      slotOfItem validatorStateMembers "cap" = 1 ∧ slotOfItem validatorStateMembers "voters" = 2 := by
  decide

theorem memberLocation_lt (base offset : Nat) : memberLocation base offset < 2 ^ 256 :=
  Nat.mod_lt _ (by decide)

theorem toBytes_ofNat_of_lt {slot : Nat} (fits : slot < 2 ^ 256) :
    Hash.toBytes (Fin.ofNat _ slot) = toBytesBE 32 slot := by
  rw [Hash.toBytes, Fin.val_ofNat, Nat.mod_eq_of_lt fits]

variable {keccak256} {statedb : Storage} {s : TomoValidator}

/-- An address array in the layout is read up to its length modulo `2 ^ 64`. -/
theorem readAddressArray_of_stores {slot : Nat} {entries : List Address} (fits : slot < 2 ^ 256)
    (stored : StoresAddresses keccak256 (statedb masternodeVotingSMC) slot entries) :
    readAddressArray keccak256 statedb (Fin.ofNat _ slot) = entries.take (entries.length % 2 ^ 64) := by
  have length : (statedb masternodeVotingSMC (Fin.ofNat _ slot)).val = entries.length := stored.length
  have short : entries.length % 2 ^ 64 ≤ entries.length := Nat.mod_le _ _
  unfold readAddressArray
  simp only [length, List.map_map]
  apply List.ext_getElem
  · simp only [List.length_map, List.length_range, List.length_take]
    exact (Nat.min_eq_left short).symm
  · intro i read taken
    simp only [List.length_map, List.length_range] at read
    have below : i < 2 ^ 64 := lt_of_lt_of_le read (Nat.le_of_lt (Nat.mod_lt _ (by decide)))
    have inList : i < entries.length := lt_of_lt_of_le read short
    -- element `i` sits at `keccak256(slot) + i`: the `uint64` product `i * 1` does not wrap
    have key : getLocDynamicArrAtElement keccak256 (Fin.ofNat _ slot) i 1 =
        Fin.ofNat _ (arrayElementLocation keccak256 slot i) := by
      unfold getLocDynamicArrAtElement arrayElementLocation
      rw [toBytes_ofNat_of_lt fits]
      have offset : (((keccak256 (toBytesBE 32 slot)).val : Int) + (i : Int) * ((1 : Nat) : Int) % 2 ^ 64) =
          (((keccak256 (toBytesBE 32 slot)).val + i : Nat) : Int) := by
        push_cast
        omega
      rw [offset, bigToHash_natCast]
      apply Fin.ext
      simp
    simp only [List.getElem_map, List.getElem_range, Function.comp, key, List.getElem_take]
    apply Fin.ext
    rw [wordToAddress_val]
    exact stored.element i inList


/-- The base slot the Go readers compute for `validatorsState[candidate]`. -/
theorem getLocMappingAtKey_validatorsState (candidate : Address) :
    getLocMappingAtKey keccak256 candidate.hash (slotOf slotValidatorMapping "validatorsState") =
      validatorBase keccak256 candidate := by
  rw [slotOf_slotValidatorMapping, getLocMappingAtKey_hash _ _ _ (by decide)]
  rfl

section Readers

variable (stored : Stores keccak256 (statedb masternodeVotingSMC) s) (candidate voter : Address)
include stored

theorem getCandidateOwner_of_stores :
    getCandidateOwner keccak256 statedb candidate = (s.validatorsState candidate).owner := by
  have owner := stored.owner candidate
  obtain ⟨ownerSlot, ownerOffset, -, -⟩ := validatorStateMembers_layout
  unfold validatorMemberLocation at owner
  rw [ownerSlot, ownerOffset] at owner
  apply Fin.ext
  unfold getCandidateOwner
  dsimp only
  rw [getLocMappingAtKey_validatorsState, bigToHash_add, wordToAddress_val]
  exact owner

theorem getCandidateCap_of_stores :
    getCandidateCap keccak256 statedb candidate = (s.validatorsState candidate).cap := by
  have cap := stored.cap candidate
  obtain ⟨-, -, capSlot, -⟩ := validatorStateMembers_layout
  unfold validatorMemberLocation at cap
  rw [capSlot] at cap
  unfold getCandidateCap
  dsimp only
  rw [getLocMappingAtKey_validatorsState, bigToHash_add]
  exact cap

theorem getVoterCap_of_stores :
    getVoterCap keccak256 statedb candidate voter = (s.validatorsState candidate).voters voter := by
  have staked := stored.voterCap candidate voter
  obtain ⟨-, -, -, votersSlot⟩ := validatorStateMembers_layout
  unfold validatorMemberLocation at staked
  rw [votersSlot] at staked
  unfold getVoterCap
  dsimp only
  -- the stake sits at `keccak256(voter . base + 2)`, which the Go code hashes itself
  rw [getLocMappingAtKey_validatorsState, bigToHash_add, toBytes_ofNat_of_lt (memberLocation_lt _ _)]
  have padded : voter.hash.toBytes = toBytesBE 32 voter.val := by
    simp [Hash.toBytes, Address.hash]
  rw [padded, ← staked]
  unfold wordAt mappingLocation
  rw [Fin.ofNat_val_eq_self]

theorem getVoters_of_stores :
    getVoters keccak256 statedb candidate = (s.voters candidate).take ((s.voters candidate).length % 2 ^ 64) := by
  unfold getVoters
  dsimp only
  rw [slotOf_slotValidatorMapping, getLocMappingAtKey_hash _ _ _ (by decide), bigToHash_natCast]
  exact readAddressArray_of_stores (Nat.lt_of_lt_of_le (Fin.isLt _) le_rfl) (stored.voters candidate)

theorem getCandidates_of_stores :
    getCandidates keccak256 statedb = s.candidates.take (s.candidates.length % 2 ^ 64) := by
  unfold getCandidates
  dsimp only
  rw [slotOf_slotValidatorMapping, bigToHash_natCast]
  exact readAddressArray_of_stores (by decide) stored.candidates

end Readers


/-! ## A storage in the layout

The states below have the one candidate `0x11`, owned by `0x22` and staked by `0x22`
and `0x33` only. `sparseKeccak` gives each input their layout hashes a value of its own,
and `layoutStorage` holds such a state in the layout under it. -/

/-- A state with the one candidate `0x11`, owned by `0x22`, of cap `cap`, staked by
`0x22` and `0x33` only, whose voter list is `entries` and then `zeros` zero addresses. -/
structure SingleCandidate (s : TomoValidator) (cap stake22 stake33 : Nat) (entries : List Address) (zeros : Nat) :
    Prop where
  owner : ∀ c, (s.validatorsState c).owner = if c = 0x11 then 0x22 else 0
  isCandidate : ∀ c, (s.validatorsState c).isCandidate = decide (c = 0x11)
  cap : ∀ c, (s.validatorsState c).cap = if c = 0x11 then cap else 0
  stake : ∀ c v, (s.validatorsState c).voters v =
    if c = 0x11 ∧ v = 0x22 then stake22 else if c = 0x11 ∧ v = 0x33 then stake33 else 0
  voters : ∀ c, s.voters c = if c = 0x11 then entries ++ List.replicate zeros 0 else []
  candidates : s.candidates = [0x11]

/-- A hash that gives the inputs the layout of such a state hashes values of their own,
and every other input `2 ^ 150`, whose slots hold zero. -/
def sparseKeccak (bytes : List UInt8) : Hash :=
  if bytes = toBytesBE 32 0x11 ++ toBytesBE 32 1 then Fin.ofNat _ (2 ^ 100)
  else if bytes = toBytesBE 32 0x22 ++ toBytesBE 32 (2 ^ 100 + 2) then Fin.ofNat _ (2 ^ 101)
  else if bytes = toBytesBE 32 0x33 ++ toBytesBE 32 (2 ^ 100 + 2) then Fin.ofNat _ (2 ^ 104)
  else if bytes = toBytesBE 32 0x11 ++ toBytesBE 32 2 then Fin.ofNat _ (2 ^ 102)
  else if bytes = toBytesBE 32 (2 ^ 102) then Fin.ofNat _ (2 ^ 200)
  else if bytes = toBytesBE 32 3 then Fin.ofNat _ (2 ^ 103)
  else Fin.ofNat _ (2 ^ 150)

/-- The words of such a state under `sparseKeccak`: the owner packed with the flag, the
cap, the two stakes, the length of the voter list and its `entries` from `2 ^ 200` on,
and the candidate list. The zero addresses after `entries` are the storage's default
words. -/
def layoutWord (cap stake22 stake33 : Nat) (entries : List Address) (zeros : Nat) (slot : Nat) : Nat :=
  if slot = 2 ^ 100 then 0x22 + 2 ^ 160
  else if slot = 2 ^ 100 + 1 then cap
  else if slot = 2 ^ 101 then stake22
  else if slot = 2 ^ 104 then stake33
  else if slot = 2 ^ 102 then entries.length + zeros
  else if 2 ^ 200 ≤ slot then (entries.getD (slot - 2 ^ 200) 0).val
  else if slot = 3 then 1
  else if slot = 2 ^ 103 then 0x11
  else 0

/-- The storage that holds `layoutWord` at each slot. -/
def layoutStorage (cap stake22 stake33 : Nat) (entries : List Address) (zeros : Nat) (slot : Hash) : Hash :=
  Fin.ofNat _ (layoutWord cap stake22 stake33 entries zeros slot.val)

theorem sparseKeccak_pair {a b : Nat} (fitsA : a < 2 ^ 256) (fitsB : b < 2 ^ 256) :
    sparseKeccak (toBytesBE 32 a ++ toBytesBE 32 b) =
      if a = 0x11 ∧ b = 1 then Fin.ofNat _ (2 ^ 100)
      else if a = 0x22 ∧ b = 2 ^ 100 + 2 then Fin.ofNat _ (2 ^ 101)
      else if a = 0x33 ∧ b = 2 ^ 100 + 2 then Fin.ofNat _ (2 ^ 104)
      else if a = 0x11 ∧ b = 2 then Fin.ofNat _ (2 ^ 102)
      else Fin.ofNat _ (2 ^ 150) := by
  have word : (2 : Nat) ^ 256 = 256 ^ 32 := by decide
  rw [word] at fitsA fitsB
  -- a pair of words is 64 bytes, never one word
  have long : ∀ c, toBytesBE 32 a ++ toBytesBE 32 b ≠ toBytesBE 32 c := by
    intro c same
    have := congrArg List.length same
    simp at this
  unfold sparseKeccak
  simp only [toBytesBE_append_inj fitsA fitsB (show 0x11 < 256 ^ 32 by decide) (show 1 < 256 ^ 32 by decide),
    toBytesBE_append_inj fitsA fitsB (show 0x22 < 256 ^ 32 by decide) (show 2 ^ 100 + 2 < 256 ^ 32 by decide),
    toBytesBE_append_inj fitsA fitsB (show 0x33 < 256 ^ 32 by decide) (show 2 ^ 100 + 2 < 256 ^ 32 by decide),
    toBytesBE_append_inj fitsA fitsB (show 0x11 < 256 ^ 32 by decide) (show 2 < 256 ^ 32 by decide),
    long, if_false]

theorem sparseKeccak_word {a : Nat} (fits : a < 2 ^ 256) :
    sparseKeccak (toBytesBE 32 a) =
      if a = 2 ^ 102 then Fin.ofNat _ (2 ^ 200) else if a = 3 then Fin.ofNat _ (2 ^ 103) else Fin.ofNat _ (2 ^ 150) := by
  have word : (2 : Nat) ^ 256 = 256 ^ 32 := by decide
  rw [word] at fits
  have short : ∀ c d, toBytesBE 32 a ≠ toBytesBE 32 c ++ toBytesBE 32 d := by
    intro c d same
    have := congrArg List.length same
    simp at this
  unfold sparseKeccak
  simp only [toBytesBE_inj fits (show 2 ^ 102 < 256 ^ 32 by decide), toBytesBE_inj fits (show 3 < 256 ^ 32 by decide),
    short, if_false]

theorem address_lt_word (a : Address) : a.val < 2 ^ 256 :=
  Nat.lt_of_lt_of_le a.isLt (Nat.pow_le_pow_right (by decide) (by decide))

theorem validatorBase_sparseKeccak (c : Address) :
    validatorBase sparseKeccak c = if c = 0x11 then 2 ^ 100 else 2 ^ 150 := by
  have slot : slotOfItem validatorVariables "validatorsState" = 1 := by decide
  unfold validatorBase mappingLocation
  rw [slot, sparseKeccak_pair (address_lt_word c) (by decide)]
  by_cases h : c = 0x11
  · subst h
    decide
  · have other : c.val ≠ 0x11 := fun same => h (Fin.ext same)
    simp [h, other]

theorem votersLocation_sparseKeccak (c : Address) :
    votersLocation sparseKeccak c = if c = 0x11 then 2 ^ 102 else 2 ^ 150 := by
  have slot : slotOfItem validatorVariables "voters" = 2 := by decide
  unfold votersLocation mappingLocation
  rw [slot, sparseKeccak_pair (address_lt_word c) (by decide)]
  by_cases h : c = 0x11
  · subst h
    decide
  · have other : c.val ≠ 0x11 := fun same => h (Fin.ext same)
    simp [h, other]

/-- The stake of `voter` under `0x11` sits at `2 ^ 101` for `0x22`, at `2 ^ 104` for
`0x33` and at the empty slot `2 ^ 150` otherwise, as under every other candidate. -/
theorem voterLocation_sparseKeccak (c v : Address) :
    mappingLocation sparseKeccak v.val (validatorMemberLocation sparseKeccak c "voters") =
      if c = 0x11 ∧ v = 0x22 then 2 ^ 101 else if c = 0x11 ∧ v = 0x33 then 2 ^ 104 else 2 ^ 150 := by
  have slot : slotOfItem validatorStateMembers "voters" = 2 := by decide
  unfold validatorMemberLocation mappingLocation
  rw [slot, validatorBase_sparseKeccak, sparseKeccak_pair (address_lt_word v) (memberLocation_lt _ _)]
  by_cases h : c = 0x11
  · subst h
    by_cases h22 : v = 0x22
    · subst h22
      decide
    · by_cases h33 : v = 0x33
      · subst h33
        decide
      · have other22 : v.val ≠ 0x22 := fun same => h22 (Fin.ext same)
        have other33 : v.val ≠ 0x33 := fun same => h33 (Fin.ext same)
        simp [h22, h33, other22, other33, memberLocation]
  · simp [h, memberLocation]

section Layout

variable {cap stake22 stake33 : Nat} {entries : List Address} {zeros : Nat}

theorem wordAt_layoutStorage {n : Nat} (fits : n < 2 ^ 256) :
    wordAt (layoutStorage cap stake22 stake33 entries zeros) n =
      layoutWord cap stake22 stake33 entries zeros n % 2 ^ 256 := by
  unfold wordAt layoutStorage
  rw [Fin.val_ofNat, Fin.val_ofNat, Nat.mod_eq_of_lt fits]

/-- A member of the record of `c` sits after `2 ^ 100` for `0x11` and after the empty
slot `2 ^ 150` otherwise. -/
theorem wordAt_validatorMember (c : Address) (member : String) :
    wordAt (layoutStorage cap stake22 stake33 entries zeros) (validatorMemberLocation sparseKeccak c member) =
      layoutWord cap stake22 stake33 entries zeros
        (memberLocation (if c = 0x11 then 2 ^ 100 else 2 ^ 150) (slotOfItem validatorStateMembers member)) % 2 ^ 256 := by
  unfold validatorMemberLocation
  rw [validatorBase_sparseKeccak, wordAt_layoutStorage (memberLocation_lt _ _)]

/-- `layoutStorage` holds every state of the shape `SingleCandidate` whose numbers fit in
a word. -/
theorem layoutStorage_stores {s : TomoValidator} (single : SingleCandidate s cap stake22 stake33 entries zeros)
    (capFits : cap < 2 ^ 256) (fits22 : stake22 < 2 ^ 256) (fits33 : stake33 < 2 ^ 256)
    (short : entries.length + zeros < 2 ^ 255) :
    Stores sparseKeccak (layoutStorage cap stake22 stake33 entries zeros) s where
  -- each member slot is a fixed number once the candidate is split on, so the layout's
  -- conditions are closed and `decide` settles them
  owner c := by
    rw [wordAt_validatorMember, single.owner]
    by_cases h : c = 0x11 <;> simp +decide only [h, if_true, if_false, layoutWord]
  isCandidate c := by
    rw [wordAt_validatorMember, single.isCandidate]
    by_cases h : c = 0x11 <;> simp +decide only [h, if_true, if_false, decide_true, decide_false, layoutWord]
  cap c := by
    rw [wordAt_validatorMember, single.cap]
    by_cases h : c = 0x11 <;> simp +decide only [h, if_true, if_false, layoutWord, Nat.mod_eq_of_lt capFits]
  voterCap c v := by
    rw [voterLocation_sparseKeccak, single.stake]
    split_ifs <;> rw [wordAt_layoutStorage (by decide)] <;>
      simp +decide only [layoutWord, ↓reduceIte, Nat.mod_eq_of_lt fits22, Nat.mod_eq_of_lt fits33]
  voters c := by
    rw [votersLocation_sparseKeccak, single.voters]
    by_cases h : c = 0x11
    · simp only [h, if_true]
      constructor
      · rw [wordAt_layoutStorage (by decide), List.length_append, List.length_replicate]
        simp +decide only [layoutWord, ↓reduceIte, Nat.mod_eq_of_lt (show entries.length + zeros < 2 ^ 256 by omega)]
      · intro i listed
        rw [List.length_append, List.length_replicate] at listed
        -- entry `i` sits at `2 ^ 200 + i`
        have slot : arrayElementLocation sparseKeccak (2 ^ 102) i = 2 ^ 200 + i := by
          unfold arrayElementLocation
          rw [sparseKeccak_word (by decide)]
          simp only [if_true]
          rw [Fin.val_ofNat, Nat.mod_eq_of_lt (show 2 ^ 200 < 2 ^ 256 by decide),
            Nat.mod_eq_of_lt (show 2 ^ 200 + i < 2 ^ 256 by omega)]
        have high : 2 ^ 200 ≤ 2 ^ 200 + i := Nat.le_add_right _ _
        have entry : layoutWord cap stake22 stake33 entries zeros (2 ^ 200 + i) = (entries.getD i 0).val := by
          unfold layoutWord
          rw [if_pos high, Nat.add_sub_cancel_left]
          repeat rw [if_neg (by omega)]
        rw [slot, wordAt_layoutStorage (by omega), entry, Nat.mod_eq_of_lt (address_lt_word _),
          List.getD_eq_getElem?_getD, List.getElem_append]
        split
        · next inEntries => simp [packedValue, inEntries, Nat.mod_eq_of_lt (Fin.isLt _)]
        · next past => simp [packedValue, List.getElem?_eq_none (Nat.le_of_not_lt past)]
    · simp only [h, if_false]
      refine ⟨?_, fun i none => absurd none (Nat.not_lt_zero i)⟩
      rw [wordAt_layoutStorage (by decide)]
      simp +decide only [layoutWord, ↓reduceIte]
  candidates := by
    have slot : slotOfItem validatorVariables "candidates" = 3 := by decide
    rw [single.candidates, slot]
    constructor
    · rw [wordAt_layoutStorage (by decide)]
      simp +decide only [layoutWord, ↓reduceIte]
    · intro i first
      have zero : i = 0 := by simpa using first
      subst zero
      unfold arrayElementLocation
      rw [sparseKeccak_word (by decide), List.getElem_cons_zero, wordAt_layoutStorage (by decide)]
      simp +decide only [layoutWord, ↓reduceIte]

end Layout

/-! ## Stake accounting over runs, as the node reads it -/

theorem validator_stake_accounting (keccak256 : List UInt8 → Hash) {s₀ s : TomoValidator} {txs : List ValidatorTx}
    (initial : StakeInv s₀) (ran : runValidator s₀ txs = .ok s) :
    StakeInv s ∧
    ∀ statedb : Storage, Stores keccak256 (statedb masternodeVotingSMC) s → ∀ candidate voter : Address,
      getCandidateOwner keccak256 statedb candidate = (s.validatorsState candidate).owner ∧
      getCandidateCap keccak256 statedb candidate = (s.validatorsState candidate).cap ∧
      getVoterCap keccak256 statedb candidate voter = (s.validatorsState candidate).voters voter ∧
      getVoters keccak256 statedb candidate = (s.voters candidate).take ((s.voters candidate).length % 2 ^ 64) := by
  refine ⟨runValidator_stakeInv initial ran, fun statedb stored candidate voter => ?_⟩
  exact ⟨getCandidateOwner_of_stores stored candidate, getCandidateCap_of_stores stored candidate,
    getVoterCap_of_stores stored candidate voter, getVoters_of_stores stored candidate⟩

/-- A genesis with the one candidate `0x11`, owned by `0x22`, and `minCandidateCap` 5. -/
def genesisValidator : TomoValidator :=
  match TomoValidator.constructor [0x11] [5] 0x22 5 1 10 3 2 5 with
  | .ok s => s
  | .error _ => TomoValidator.empty

/-- The genesis after `0x33` votes 3 for `0x11` at block 1. -/
def votedValidator : TomoValidator :=
  match runValidator genesisValidator [⟨.vote 0x11, ⟨0x33, 3⟩, 1, by decide⟩] with
  | .ok s => s
  | .error _ => genesisValidator

theorem genesisValidator_eq :
    genesisValidator = constructorStep 0x22
      { TomoValidator.empty with
        minCandidateCap := 5
        minVoterCap := 1
        maxValidatorNumber := 10
        candidateWithdrawDelay := 3
        voterWithdrawDelay := 2
        candidateCount := 1
        balance := 5 } 0x11 5 :=
  rfl

/-- The vote adds 3 to the cap, lists `0x33` and gives it the stake 3. -/
theorem votedValidator_eq :
    votedValidator =
      (((genesisValidator.receive ⟨0x33, 3⟩).setCap 0x11 8).pushVoter 0x11 0x33).setVoterCap 0x11 0x33 3 :=
  rfl

/-- The constructor writes the record of `0x11` only: owned by `0x22`, a candidate of
cap 5, staked 5 by its owner. -/
theorem genesisValidator_validatorsState (c : Address) :
    genesisValidator.validatorsState c =
      if c = 0x11 then ⟨0x22, true, 5, Function.update (fun _ => 0) 0x22 5⟩
      else TomoValidator.empty.validatorsState c := by
  by_cases h : c = 0x11 <;> simp [h, genesisValidator_eq, constructorStep, TomoValidator.setVoterCap,
    TomoValidator.setValidator, TomoValidator.pushVoter, TomoValidator.empty]

theorem genesisValidator_voters (c : Address) : genesisValidator.voters c = if c = 0x11 then [0x22] else [] := by
  by_cases h : c = 0x11 <;> simp [h, genesisValidator_eq, constructorStep, TomoValidator.setVoterCap,
    TomoValidator.setValidator, TomoValidator.pushVoter, TomoValidator.empty]

theorem genesisValidator_single : SingleCandidate genesisValidator 5 5 0 [0x22] 0 where
  owner c := by
    rw [genesisValidator_validatorsState]
    split <;> rfl
  isCandidate c := by
    rw [genesisValidator_validatorsState]
    split <;> simp_all [TomoValidator.empty]
  cap c := by
    rw [genesisValidator_validatorsState]
    split <;> rfl
  stake c v := by
    rw [genesisValidator_validatorsState]
    by_cases h : c = 0x11 <;> by_cases hv : v = 0x22 <;> simp [h, hv, TomoValidator.empty]
  voters c := by
    rw [genesisValidator_voters]
    split <;> rfl
  candidates := by decide

/-- The vote raises the cap of `0x11` to 8, gives `0x33` the stake 3 and lists it; the
other records and lists are the genesis ones. -/
theorem votedValidator_validatorsState (c : Address) :
    votedValidator.validatorsState c =
      if c = 0x11 then
        { genesisValidator.validatorsState 0x11 with
          cap := 8, voters := Function.update (genesisValidator.validatorsState 0x11).voters 0x33 3 }
      else genesisValidator.validatorsState c := by
  rw [votedValidator_eq]
  by_cases h : c = 0x11
  · subst h
    simp [TomoValidator.setVoterCap, TomoValidator.setValidator, TomoValidator.setCap, TomoValidator.receive]
  · simp [h, TomoValidator.setVoterCap, TomoValidator.setValidator, TomoValidator.setCap, TomoValidator.receive]

theorem votedValidator_voters (c : Address) :
    votedValidator.voters c = if c = 0x11 then genesisValidator.voters 0x11 ++ [0x33] else genesisValidator.voters c := by
  rw [votedValidator_eq]
  by_cases h : c = 0x11
  · subst h
    simp [TomoValidator.setVoterCap, TomoValidator.setValidator, TomoValidator.setCap, TomoValidator.receive]
  · simp [h, TomoValidator.setVoterCap, TomoValidator.setValidator, TomoValidator.setCap, TomoValidator.receive]

theorem votedValidator_single : SingleCandidate votedValidator 8 5 3 [0x22, 0x33] 0 where
  owner c := by
    rw [votedValidator_validatorsState, ← genesisValidator_single.owner c]
    split <;> simp_all
  isCandidate c := by
    rw [votedValidator_validatorsState, ← genesisValidator_single.isCandidate c]
    split <;> simp_all
  cap c := by
    rw [votedValidator_validatorsState]
    split <;> simp_all [genesisValidator_single.cap]
  stake c v := by
    rw [votedValidator_validatorsState]
    have genesis := genesisValidator_single.stake
    by_cases h : c = 0x11 <;> by_cases hv : v = 0x33 <;> simp_all
  voters c := by
    rw [votedValidator_voters, genesisValidator_single.voters, genesisValidator_single.voters]
    split <;> simp_all
  candidates := genesisValidator_single.candidates

/-- The node's state with the storage of `votedValidator` at the contract. -/
def votedStatedb : Storage := fun _ => layoutStorage 8 5 3 [0x22, 0x33] 0

/-- After the vote, under the hash `sparseKeccak`, the storage `votedStatedb` holds the
state in the layout, and the readers return the candidate list, the owner, the cap, both
stakes and the voter list. -/
theorem validator_stake_accounting_after_vote :
    StakeInv votedValidator ∧ Stores sparseKeccak (votedStatedb masternodeVotingSMC) votedValidator ∧
    getCandidates sparseKeccak votedStatedb = votedValidator.candidates ∧
    ∀ candidate voter : Address,
      getCandidateOwner sparseKeccak votedStatedb candidate = (votedValidator.validatorsState candidate).owner ∧
      getCandidateCap sparseKeccak votedStatedb candidate = (votedValidator.validatorsState candidate).cap ∧
      getVoterCap sparseKeccak votedStatedb candidate voter = (votedValidator.validatorsState candidate).voters voter ∧
      getVoters sparseKeccak votedStatedb candidate =
        (votedValidator.voters candidate).take ((votedValidator.voters candidate).length % 2 ^ 64) := by
  have stored : Stores sparseKeccak (votedStatedb masternodeVotingSMC) votedValidator :=
    layoutStorage_stores votedValidator_single (by decide) (by decide) (by decide) (by decide)
  obtain ⟨inv, readers⟩ := validator_stake_accounting sparseKeccak
    (constructor_stakeInv (by decide) (by decide) (by decide)
      (rfl : TomoValidator.constructor [0x11] [5] 0x22 5 1 10 3 2 5 = .ok genesisValidator))
    (rfl : runValidator genesisValidator [⟨.vote 0x11, ⟨0x33, 3⟩, 1, by decide⟩] = .ok votedValidator)
  have listed : getCandidates sparseKeccak votedStatedb = votedValidator.candidates := by
    rw [getCandidates_of_stores stored, votedValidator_single.candidates]
    rfl
  exact ⟨inv, stored, listed, readers votedStatedb stored⟩

/-! ## A voter list read short

`vote` pushes a voter again each time its stake went back to zero, so a voter list can
grow past `2 ^ 64` entries. The state below has such a list, the owner and then
`2 ^ 64` zero addresses, and satisfies the invariant; `layoutStorage` holds it with one
word for the length and one for the owner, as a genesis can, and `GetVoters` reads one
entry of it. -/

/-- The genesis with the voter list of `0x11` grown to `2 ^ 64 + 1` entries: its owner,
then zero addresses. -/
def longVotersValidator : TomoValidator :=
  { genesisValidator with
    voters := Function.update genesisValidator.voters 0x11 ([0x22] ++ List.replicate (2 ^ 64) 0) }

theorem longVotersValidator_single : SingleCandidate longVotersValidator 5 5 0 [0x22] (2 ^ 64) where
  owner := genesisValidator_single.owner
  isCandidate := genesisValidator_single.isCandidate
  cap := genesisValidator_single.cap
  stake := genesisValidator_single.stake
  voters c := by
    -- `simp` would unroll the replicate through `List.replicate_succ`, so rewrite by hand
    show Function.update genesisValidator.voters 0x11 ([0x22] ++ List.replicate (2 ^ 64) 0) c = _
    by_cases h : c = 0x11
    · subst h
      rw [Function.update_self, if_pos rfl]
    · rw [Function.update_of_ne h, genesisValidator_single.voters, if_neg h, if_neg h]
  candidates := genesisValidator_single.candidates

/-- The long voter list keeps the accounting: it lists the one staked voter. -/
theorem longVotersValidator_stakeInv : StakeInv longVotersValidator := by
  have genesis : StakeInv genesisValidator :=
    constructor_stakeInv (by decide) (by decide) (by decide)
      (rfl : TomoValidator.constructor [0x11] [5] 0x22 5 1 10 3 2 5 = .ok genesisValidator)
  refine StakeInv.of_voters genesis _ fun c v listed => ?_
  rw [genesisValidator_single.voters] at listed
  by_cases h : c = 0x11
  · subst h
    rw [if_pos rfl, List.replicate_zero, List.append_nil] at listed
    show v ∈ longVotersValidator.voters 0x11
    rw [longVotersValidator_single.voters, if_pos rfl]
    exact List.mem_append_left _ listed
  · rw [if_neg h] at listed
    exact absurd listed List.not_mem_nil

/-- The node's state with the storage of `longVotersValidator` at the contract. -/
def longVotersStatedb : Storage := fun _ => layoutStorage 5 5 0 [0x22] (2 ^ 64)

/-- The state satisfies the invariant, the empty run succeeds on it, and its storage
holds it; yet `GetVoters` reads one voter of the `2 ^ 64 + 1` in the list, since the
length wraps as a `uint64`. -/
theorem getVoters_wraps_long_list :
    StakeInv longVotersValidator ∧ runValidator longVotersValidator [] = .ok longVotersValidator ∧
    Stores sparseKeccak (longVotersStatedb masternodeVotingSMC) longVotersValidator ∧
    getVoters sparseKeccak longVotersStatedb 0x11 = [0x22] ∧
    getVoters sparseKeccak longVotersStatedb 0x11 ≠ longVotersValidator.voters 0x11 := by
  have stored : Stores sparseKeccak (longVotersStatedb masternodeVotingSMC) longVotersValidator :=
    layoutStorage_stores longVotersValidator_single (by decide) (by decide) (by decide) (by decide)
  have read := getVoters_of_stores stored 0x11
  rw [longVotersValidator_single.voters, if_pos rfl, List.length_append, List.length_replicate] at read
  have short : getVoters sparseKeccak longVotersStatedb 0x11 = [0x22] := by
    rw [read, show ([0x22] : List Address).length + 2 ^ 64 = 2 ^ 64 + 1 from rfl,
      show (2 ^ 64 + 1) % 2 ^ 64 = 1 by decide, List.take_append_of_le_length (Nat.le_refl 1)]
    rfl
  refine ⟨longVotersValidator_stakeInv, rfl, stored, short, fun same => ?_⟩
  -- the read list has one entry, the stored one `2 ^ 64 + 1`
  have lengths := congrArg List.length same
  rw [short, longVotersValidator_single.voters, if_pos rfl, List.length_append, List.length_replicate] at lengths
  exact absurd lengths (by decide)

end TomoChain.Contracts
