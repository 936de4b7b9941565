import Mathlib
import TomoChain.Contracts.Registration

set_option autoImplicit false

/-! The `TomoValidator` staking contract of `contracts/validator/contract/TomoValidator.sol`
at the level of its Solidity variables. A mapping is a function, which a missing key
reads as zero; `delete` writes zero. The `uint256` arithmetic goes through `SafeMath`,
whose `add` and `sub` revert where the result would wrap; a call that fails reverts, so
the contract keeps its state. The native balance of the contract's account is kept
beside the variables: a payable call credits its value, `transfer` debits it. Events
and the view functions are not modelled; the Go code reads the storage directly
(`core/state/statedb_utils.go`). -/
namespace TomoChain.Contracts

/-- A `uint256` used as a mapping key, as the block numbers of a withdrawal. -/
abbrev Uint256 := Fin (2 ^ 256)

/-- `SafeMath.sub`: `assert(b <= a)`. -/
def safeSub (a b : Nat) : Except String Nat :=
  if b ≤ a then pure (a - b) else throw ""

/-- `struct ValidatorState`. -/
structure ValidatorState where
  owner : Address
  isCandidate : Bool
  cap : Nat
  voters : Address → Nat

/-- `struct WithdrawState`. -/
structure WithdrawState where
  caps : Uint256 → Nat
  blockNumbers : List Uint256

/-- The variables of `TomoValidator` and the balance of its account. -/
structure TomoValidator where
  withdrawsState : Address → WithdrawState
  validatorsState : Address → ValidatorState
  voters : Address → List Address
  candidates : List Address
  candidateCount : Nat
  minCandidateCap : Nat
  minVoterCap : Nat
  maxValidatorNumber : Nat
  candidateWithdrawDelay : Nat
  voterWithdrawDelay : Nat
  balance : Nat

/-- The functions of the contract that change its state. -/
inductive ValidatorCall
  | propose (candidate : Address)
  | vote (candidate : Address)
  | unvote (candidate : Address) (cap : Nat)
  | resign (candidate : Address)
  | withdraw (blockNumber : Uint256) (index : Nat)

/-- `delete candidates[i]` for the first `i` that holds `candidate`: the entry becomes
the zero address and the array keeps its length. -/
def deleteFirst : List Address → Address → List Address
  | [], _ => []
  | entry :: rest, candidate => if entry = candidate then 0 :: rest else entry :: deleteFirst rest candidate

namespace TomoValidator

variable (s : TomoValidator)

/-- `validatorsState[candidate] = state`. -/
def setValidator (candidate : Address) (state : ValidatorState) : TomoValidator :=
  { s with validatorsState := Function.update s.validatorsState candidate state }

/-- `validatorsState[candidate].cap = cap`. -/
def setCap (candidate : Address) (cap : Nat) : TomoValidator :=
  s.setValidator candidate { s.validatorsState candidate with cap := cap }

/-- `validatorsState[candidate].voters[voter] = cap`. -/
def setVoterCap (candidate voter : Address) (cap : Nat) : TomoValidator :=
  s.setValidator candidate
    { s.validatorsState candidate with
      voters := Function.update (s.validatorsState candidate).voters voter cap }

/-- `validatorsState[candidate].isCandidate = false`. -/
def unsetCandidate (candidate : Address) : TomoValidator :=
  s.setValidator candidate { s.validatorsState candidate with isCandidate := false }

/-- `voters[candidate].push(voter)`. -/
def pushVoter (candidate voter : Address) : TomoValidator :=
  { s with voters := Function.update s.voters candidate (s.voters candidate ++ [voter]) }

/-- `withdrawsState[owner] = state`. -/
def setWithdraws (owner : Address) (state : WithdrawState) : TomoValidator :=
  { s with withdrawsState := Function.update s.withdrawsState owner state }

/-- `withdrawsState[owner].caps[blockNumber] = cap`. -/
def setWithdrawCap (owner : Address) (blockNumber : Uint256) (cap : Nat) : TomoValidator :=
  s.setWithdraws owner
    { s.withdrawsState owner with caps := Function.update (s.withdrawsState owner).caps blockNumber cap }

/-- `withdrawsState[owner].blockNumbers.push(blockNumber)`. -/
def pushBlockNumber (owner : Address) (blockNumber : Uint256) : TomoValidator :=
  s.setWithdraws owner
    { s.withdrawsState owner with blockNumbers := (s.withdrawsState owner).blockNumbers ++ [blockNumber] }

/-- `delete withdrawsState[owner].blockNumbers[index]`. -/
def deleteBlockNumber (owner : Address) (index : Nat) : TomoValidator :=
  s.setWithdraws owner
    { s.withdrawsState owner with blockNumbers := (s.withdrawsState owner).blockNumbers.set index 0 }

/-- A payable function credits the value of the call to the contract's account. -/
def receive (msg : Msg) : TomoValidator := { s with balance := s.balance + msg.value }

/-- `address.transfer(amount)` from the contract, which reverts on a short balance. -/
def transferOut (amount : Nat) : Except String TomoValidator :=
  if amount ≤ s.balance then pure { s with balance := s.balance - amount } else throw ""

/-- The refund bucket of a request made at block `number` with delay `delay`:
`delay.add(block.number)`, a `uint256` key. -/
def withdrawBlockNumber (delay number : Nat) : Except String Uint256 := do
  let key ← safeAdd delay number
  pure (Fin.ofNat _ key)

/-- Moves `cap` of `owner` to the refund bucket of `blockNumber`: the bucket grows by
`cap` and the block number is pushed, once per request. -/
def addWithdraw (owner : Address) (blockNumber : Uint256) (cap : Nat) : Except String TomoValidator := do
  let pending ← safeAdd ((s.withdrawsState owner).caps blockNumber) cap
  pure ((s.setWithdrawCap owner blockNumber pending).pushBlockNumber owner blockNumber)

/-! What each write changes; the other primitives are these three writes and the
field updates of `receive`. -/

@[simp] theorem setValidator_validatorsState (candidate : Address) (state : ValidatorState) :
    (s.setValidator candidate state).validatorsState = Function.update s.validatorsState candidate state := rfl

@[simp] theorem setValidator_voters (candidate : Address) (state : ValidatorState) :
    (s.setValidator candidate state).voters = s.voters := rfl

@[simp] theorem setValidator_withdrawsState (candidate : Address) (state : ValidatorState) :
    (s.setValidator candidate state).withdrawsState = s.withdrawsState := rfl

@[simp] theorem setValidator_balance (candidate : Address) (state : ValidatorState) :
    (s.setValidator candidate state).balance = s.balance := rfl

@[simp] theorem setValidator_minCandidateCap (candidate : Address) (state : ValidatorState) :
    (s.setValidator candidate state).minCandidateCap = s.minCandidateCap := rfl

@[simp] theorem pushVoter_validatorsState (candidate voter : Address) :
    (s.pushVoter candidate voter).validatorsState = s.validatorsState := rfl

@[simp] theorem pushVoter_voters (candidate voter : Address) :
    (s.pushVoter candidate voter).voters = Function.update s.voters candidate (s.voters candidate ++ [voter]) := rfl

@[simp] theorem pushVoter_withdrawsState (candidate voter : Address) :
    (s.pushVoter candidate voter).withdrawsState = s.withdrawsState := rfl

@[simp] theorem pushVoter_balance (candidate voter : Address) :
    (s.pushVoter candidate voter).balance = s.balance := rfl

@[simp] theorem pushVoter_minCandidateCap (candidate voter : Address) :
    (s.pushVoter candidate voter).minCandidateCap = s.minCandidateCap := rfl

@[simp] theorem setWithdraws_withdrawsState (owner : Address) (state : WithdrawState) :
    (s.setWithdraws owner state).withdrawsState = Function.update s.withdrawsState owner state := rfl

@[simp] theorem setWithdraws_validatorsState (owner : Address) (state : WithdrawState) :
    (s.setWithdraws owner state).validatorsState = s.validatorsState := rfl

@[simp] theorem setWithdraws_voters (owner : Address) (state : WithdrawState) :
    (s.setWithdraws owner state).voters = s.voters := rfl

@[simp] theorem setWithdraws_balance (owner : Address) (state : WithdrawState) :
    (s.setWithdraws owner state).balance = s.balance := rfl

@[simp] theorem setWithdraws_minCandidateCap (owner : Address) (state : WithdrawState) :
    (s.setWithdraws owner state).minCandidateCap = s.minCandidateCap := rfl

/-! ## Modifiers -/

variable (msg : Msg)

/-- A function that is not `payable` reverts on a call with value. -/
def nonPayable : Except String Unit := require (msg.value = 0) ""

def onlyValidCandidateCap : Except String Unit := require (msg.value ≥ s.minCandidateCap) ""

def onlyValidVoterCap : Except String Unit := require (msg.value ≥ s.minVoterCap) ""

def onlyOwner (candidate : Address) : Except String Unit :=
  require ((s.validatorsState candidate).owner = msg.sender) ""

def onlyCandidate (candidate : Address) : Except String Unit :=
  require ((s.validatorsState candidate).isCandidate = true) ""

/-- The same check as `onlyCandidate`, under the name `vote` uses. -/
def onlyValidCandidate (candidate : Address) : Except String Unit := onlyCandidate s candidate

def onlyNotCandidate (candidate : Address) : Except String Unit :=
  require ((s.validatorsState candidate).isCandidate = false) ""

/-- A voter can take back at most its stake, and the owner must keep `minCandidateCap`. -/
def onlyValidVote (candidate : Address) (cap : Nat) : Except String Unit := do
  let stake := (s.validatorsState candidate).voters msg.sender
  require (stake ≥ cap) ""
  if (s.validatorsState candidate).owner = msg.sender then
    let rest ← safeSub stake cap
    require (rest ≥ s.minCandidateCap) ""

def onlyValidWithdraw (number : Nat) (blockNumber : Uint256) (index : Nat) : Except String Unit := do
  require (blockNumber.val > 0) ""
  require (number ≥ blockNumber.val) ""
  require ((s.withdrawsState msg.sender).caps blockNumber > 0) ""
  -- an index past the end of the array reverts
  require ((s.withdrawsState msg.sender).blockNumbers[index]? = some blockNumber) ""

/-! ## The functions -/

def propose (candidate : Address) : Except String TomoValidator := do
  let s := s.receive msg
  onlyValidCandidateCap s msg
  onlyNotCandidate s candidate
  let cap ← safeAdd (s.validatorsState candidate).cap msg.value
  let s := { s with candidates := s.candidates ++ [candidate] }
  -- assigning the struct writes its three members; the `voters` mapping stays
  let s := s.setValidator candidate
    { s.validatorsState candidate with owner := msg.sender, isCandidate := true, cap := cap }
  let stake ← safeAdd ((s.validatorsState candidate).voters msg.sender) msg.value
  let s := s.setVoterCap candidate msg.sender stake
  let count ← safeAdd s.candidateCount 1
  let s := { s with candidateCount := count }
  pure (s.pushVoter candidate msg.sender)

def vote (candidate : Address) : Except String TomoValidator := do
  let s := s.receive msg
  onlyValidVoterCap s msg
  onlyValidCandidate s candidate
  let cap ← safeAdd (s.validatorsState candidate).cap msg.value
  let s := s.setCap candidate cap
  let s := if (s.validatorsState candidate).voters msg.sender = 0 then s.pushVoter candidate msg.sender else s
  let stake ← safeAdd ((s.validatorsState candidate).voters msg.sender) msg.value
  pure (s.setVoterCap candidate msg.sender stake)

def unvote (number : Nat) (candidate : Address) (cap : Nat) : Except String TomoValidator := do
  nonPayable msg
  onlyValidVote s msg candidate cap
  let newCap ← safeSub (s.validatorsState candidate).cap cap
  let s := s.setCap candidate newCap
  let stake ← safeSub ((s.validatorsState candidate).voters msg.sender) cap
  let s := s.setVoterCap candidate msg.sender stake
  -- refund after delay X blocks
  let blockNumber ← withdrawBlockNumber s.voterWithdrawDelay number
  s.addWithdraw msg.sender blockNumber cap

def resign (number : Nat) (candidate : Address) : Except String TomoValidator := do
  nonPayable msg
  onlyOwner s msg candidate
  onlyCandidate s candidate
  let s := s.unsetCandidate candidate
  let count ← safeSub s.candidateCount 1
  let s := { s with candidateCount := count, candidates := deleteFirst s.candidates candidate }
  let cap := (s.validatorsState candidate).voters msg.sender
  let newCap ← safeSub (s.validatorsState candidate).cap cap
  let s := s.setCap candidate newCap
  let s := s.setVoterCap candidate msg.sender 0
  -- refunding after resigning X blocks
  let blockNumber ← withdrawBlockNumber s.candidateWithdrawDelay number
  s.addWithdraw msg.sender blockNumber cap

def withdraw (number : Nat) (blockNumber : Uint256) (index : Nat) : Except String TomoValidator := do
  nonPayable msg
  onlyValidWithdraw s msg number blockNumber index
  let cap := (s.withdrawsState msg.sender).caps blockNumber
  let s := s.setWithdrawCap msg.sender blockNumber 0
  let s := s.deleteBlockNumber msg.sender index
  s.transferOut cap

/-- One call at block `number`. -/
def execute (number : Nat) : ValidatorCall → Except String TomoValidator
  | .propose candidate => s.propose msg candidate
  | .vote candidate => s.vote msg candidate
  | .unvote candidate cap => s.unvote msg number candidate cap
  | .resign candidate => s.resign msg number candidate
  | .withdraw blockNumber index => s.withdraw msg number blockNumber index

end TomoValidator

/-- A call with its message and the number of the block that includes it. The value
of a call is a `uint256`. -/
structure ValidatorTx where
  call : ValidatorCall
  msg : Msg
  number : Nat
  valueWord : msg.value < 2 ^ 256

/-- Runs transactions in order and stops at the first that reverts. -/
def runValidator : TomoValidator → List ValidatorTx → Except String TomoValidator
  | s, [] => pure s
  | s, tx :: rest => do
    let s ← s.execute tx.msg tx.number tx.call
    runValidator s rest

/-! ## The constructor -/

/-- One pass of the constructor's loop: `_candidates[i]` with `_caps[i]`. -/
def constructorStep (firstOwner : Address) (s : TomoValidator) (candidate : Address) (cap : Nat) : TomoValidator :=
  let s := { s with candidates := s.candidates ++ [candidate] }
  let s := s.setValidator candidate
    { s.validatorsState candidate with owner := firstOwner, isCandidate := true, cap := cap }
  let s := s.pushVoter candidate firstOwner
  s.setVoterCap candidate firstOwner s.minCandidateCap

/-- The loop of the constructor over `_candidates`, with `_caps` read at the same
index: a shorter `_caps` reverts. -/
def constructorLoop (firstOwner : Address) :
    TomoValidator → List Address → List Nat → Except String TomoValidator
  | s, [], _ => pure s
  | _, _ :: _, [] => throw ""
  | s, candidate :: candidates, cap :: caps =>
    constructorLoop firstOwner (constructorStep firstOwner s candidate cap) candidates caps

/-- The state before the constructor's body: every variable zero. -/
def TomoValidator.empty : TomoValidator where
  withdrawsState := fun _ => ⟨fun _ => 0, []⟩
  validatorsState := fun _ => ⟨0, false, 0, fun _ => 0⟩
  voters := fun _ => []
  candidates := []
  candidateCount := 0
  minCandidateCap := 0
  minVoterCap := 0
  maxValidatorNumber := 0
  candidateWithdrawDelay := 0
  voterWithdrawDelay := 0
  balance := 0

/-- The constructor; the account's balance is the one genesis gives it. -/
def TomoValidator.constructor (candidates : List Address) (caps : List Nat) (firstOwner : Address)
    (minCandidateCap minVoterCap maxValidatorNumber candidateWithdrawDelay voterWithdrawDelay balance : Nat) :
    Except String TomoValidator :=
  constructorLoop firstOwner
    { TomoValidator.empty with
      minCandidateCap, minVoterCap, maxValidatorNumber, candidateWithdrawDelay, voterWithdrawDelay,
      candidateCount := candidates.length, balance }
    candidates caps

end TomoChain.Contracts
