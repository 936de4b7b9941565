import Mathlib
import TomoChain.Core.StateReader

set_option autoImplicit false

/-! The readers of `core/state/statedb_utils.go` for the staking contract at
`common.MasternodeVotingSMC`. They do not call the contract: they compute the slots of
its Solidity variables by hand, from the table `slotValidatorMapping` and fixed member
offsets, and read the words there. The readers of the block-signer and randomize
contracts in the same file are not modelled. -/
namespace TomoChain.State

/-- `slotValidatorMapping`. -/
def slotValidatorMapping : List (String × Nat) :=
  [("withdrawsState", 0), ("validatorsState", 1), ("voters", 2), ("candidates", 3), ("candidateCount", 4),
    ("minCandidateCap", 5), ("minVoterCap", 6), ("maxValidatorNumber", 7), ("candidateWithdrawDelay", 8),
    ("voterWithdrawDelay", 9)]

/-- Reading a Go map: a missing key reads as zero. -/
def slotOf (table : List (String × Nat)) (name : String) : Nat := (table.lookup name).getD 0

/-- `common.MasternodeVotingSMC`. -/
def masternodeVotingSMC : Address := 0x88

/-- `common.HexToAddress(ret.Hex())`: the hex text of the 32 bytes decodes back to
them, and the address is their last 20. -/
def wordToAddress (ret : Hash) : Address := bytesToAddress ret.toBytes

variable (keccak256 : List UInt8 → Hash) (statedb : Storage)

/-- The words of a dynamic array of addresses: its length at `slotHash`, read as a
`uint64`, and its elements from `keccak256(slotHash)` on. -/
def readAddressArray (slotHash : Hash) : List Address :=
  let arrLength := statedb masternodeVotingSMC slotHash
  let keys := (List.range (arrLength.val % 2 ^ 64)).map fun i => getLocDynamicArrAtElement keccak256 slotHash i 1
  keys.map fun key => wordToAddress (statedb masternodeVotingSMC key)

/-- `GetCandidates`. -/
def getCandidates : List Address :=
  let slot := slotOf slotValidatorMapping "candidates"
  readAddressArray keccak256 statedb (bigToHash slot)

/-- `GetCandidateOwner`: `validatorsState[_candidate].owner`. -/
def getCandidateOwner (candidate : Address) : Address :=
  let slot := slotOf slotValidatorMapping "validatorsState"
  let locValidatorsState := getLocMappingAtKey keccak256 candidate.hash slot
  let locCandidateOwner := locValidatorsState + 0
  wordToAddress (statedb masternodeVotingSMC (bigToHash locCandidateOwner))

/-- `GetCandidateCap`: `validatorsState[_candidate].cap`. -/
def getCandidateCap (candidate : Address) : Nat :=
  let slot := slotOf slotValidatorMapping "validatorsState"
  let locValidatorsState := getLocMappingAtKey keccak256 candidate.hash slot
  let locCandidateCap := locValidatorsState + 1
  (statedb masternodeVotingSMC (bigToHash locCandidateCap)).val

/-- `GetVoters`: the array `voters[_candidate]`. -/
def getVoters (candidate : Address) : List Address :=
  let slot := slotOf slotValidatorMapping "voters"
  let locVoters := getLocMappingAtKey keccak256 candidate.hash slot
  readAddressArray keccak256 statedb (bigToHash locVoters)

/-- `GetVoterCap`: `validatorsState[_candidate].voters[_voter]`. `crypto.Keccak256`
returns the 32 bytes that `common.BytesToHash` turns back into the word. -/
def getVoterCap (candidate voter : Address) : Nat :=
  let slot := slotOf slotValidatorMapping "validatorsState"
  let locValidatorsState := getLocMappingAtKey keccak256 candidate.hash slot
  let locCandidateVoters := locValidatorsState + 2
  let retByte := keccak256 (voter.hash.toBytes ++ (bigToHash locCandidateVoters).toBytes)
  (statedb masternodeVotingSMC retByte).val

end TomoChain.State
