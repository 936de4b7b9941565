import Mathlib
import TomoChain.Contracts.Validator
import TomoChain.Contracts.RegistrationAccounts
import TomoChain.Lib.FinSum

set_option autoImplicit false

/-! Stake accounting of `TomoValidator`. The cap of every candidate is the sum of its
voters' stakes, the account holds at least all caps and all refunds not yet withdrawn,
every voter with a stake is on the candidate's voter list, and the owner of a
candidate keeps `minCandidateCap`. Every call is one of three moves (a stake credited,
a stake moved to a refund bucket, a bucket paid out), and each move keeps these facts;
so does every run of successful calls. -/
namespace TomoChain.Contracts

open Lib TomoValidator

/-- The stake voted for `candidate`: `voters[v]` summed over all addresses. -/
def stake (s : TomoValidator) (candidate : Address) : Nat := ∑ voter, (s.validatorsState candidate).voters voter

/-- The caps of all candidates. -/
def totalCaps (s : TomoValidator) : Nat := ∑ candidate, (s.validatorsState candidate).cap

/-- The refunds of one address waiting in its buckets. -/
def pendingOf (state : WithdrawState) : Nat := ∑ blockNumber, state.caps blockNumber

/-- The refunds of all addresses. -/
def totalPending (s : TomoValidator) : Nat := ∑ owner, pendingOf (s.withdrawsState owner)

/-- The stake accounting of the contract. -/
structure StakeInv (s : TomoValidator) : Prop where
  capStake : ∀ candidate, (s.validatorsState candidate).cap = stake s candidate
  funded : totalCaps s + totalPending s ≤ s.balance
  listed : ∀ candidate voter, 0 < (s.validatorsState candidate).voters voter → voter ∈ s.voters candidate
  ownerStake : ∀ candidate, (s.validatorsState candidate).isCandidate = true →
    s.minCandidateCap ≤ (s.validatorsState candidate).voters (s.validatorsState candidate).owner

/-! ## `SafeMath` -/

/-- A `SafeMath.add` that succeeds on a `uint256` second operand adds exactly. -/
theorem safeAdd_ok {a b c : Nat} (added : safeAdd a b = .ok c) (word : b < 2 ^ 256) : c = a + b := by
  simp only [safeAdd] at added
  split at added
  · next noWrap =>
      cases ok_injective added
      unfold Contracts.word at noWrap ⊢
      -- a sum past `2 ^ 256` would wrap below `a`
      by_cases fits : a + b < 2 ^ 256
      · exact Nat.mod_eq_of_lt fits
      · have wrapped : (a + b) % 2 ^ 256 = a + b - 2 ^ 256 ∨ (a + b) % 2 ^ 256 < a := by
          by_cases small : a < 2 ^ 256
          · left
            rw [Nat.mod_eq_sub_mod (by omega), Nat.mod_eq_of_lt (by omega)]
          · right
            have := Nat.mod_lt (a + b) (show 2 ^ 256 > 0 by decide)
            omega
        omega
  · cases added

/-- Whatever it returns, a `SafeMath.add` adds at most. -/
theorem safeAdd_le {a b c : Nat} (added : safeAdd a b = .ok c) : c ≤ a + b := by
  simp only [safeAdd] at added
  split at added
  · cases ok_injective added
    unfold Contracts.word
    exact Nat.mod_le _ _
  · cases added

theorem safeSub_ok {a b c : Nat} (subtracted : safeSub a b = .ok c) : b ≤ a ∧ c = a - b := by
  unfold safeSub at subtracted
  split at subtracted
  · next fits => exact ⟨fits, (ok_injective subtracted).symm⟩
  · cases subtracted

theorem TomoValidator.transferOut_ok {s s' : TomoValidator} {amount : Nat} (paid : s.transferOut amount = .ok s') :
    s' = { s with balance := s.balance - amount } := by
  unfold TomoValidator.transferOut at paid
  split at paid
  · exact (ok_injective paid).symm
  · cases paid

/-! ## How a write changes the sums -/

theorem stake_of_validatorsState {s s' : TomoValidator} {candidate : Address} {state : ValidatorState}
    (validators : s'.validatorsState = Function.update s.validatorsState candidate state) (other : Address) :
    stake s' other = if other = candidate then ∑ voter, state.voters voter else stake s other := by
  by_cases here : other = candidate
  · subst here
    simp [stake, validators]
  · simp [stake, validators, here]

theorem totalCaps_of_validatorsState {s s' : TomoValidator} {candidate : Address} {state : ValidatorState}
    (validators : s'.validatorsState = Function.update s.validatorsState candidate state) :
    totalCaps s' + (s.validatorsState candidate).cap = totalCaps s + state.cap := by
  unfold totalCaps
  rw [validators]
  exact sum_comp_update ValidatorState.cap s.validatorsState candidate state

theorem totalPending_of_withdrawsState {s s' : TomoValidator} {owner : Address} {state : WithdrawState}
    (withdraws : s'.withdrawsState = Function.update s.withdrawsState owner state) :
    totalPending s' + pendingOf (s.withdrawsState owner) = totalPending s + pendingOf state := by
  unfold totalPending
  rw [withdraws]
  exact sum_comp_update pendingOf s.withdrawsState owner state

/-- Writing one stake replaces it in the sum. -/
theorem sum_update_stake (voters : Address → Nat) (voter : Address) (amount : Nat) :
    (∑ v, Function.update voters voter amount v) + voters voter = (∑ v, voters v) + amount :=
  sum_update_add voters voter amount

/-- A bucket written to `cap` replaces its refund in the sum. -/
theorem pendingOf_of_caps {state bucket : WithdrawState} {blockNumber : Uint256} {cap : Nat}
    (caps : bucket.caps = Function.update state.caps blockNumber cap) :
    pendingOf bucket + state.caps blockNumber = pendingOf state + cap := by
  unfold pendingOf
  rw [caps]
  exact sum_update_add state.caps blockNumber cap

theorem le_pendingOf (state : WithdrawState) (blockNumber : Uint256) : state.caps blockNumber ≤ pendingOf state := by
  unfold pendingOf
  exact Finset.single_le_sum (fun _ _ => Nat.zero_le _) (Finset.mem_univ blockNumber)

theorem pendingOf_le_totalPending (s : TomoValidator) (owner : Address) :
    pendingOf (s.withdrawsState owner) ≤ totalPending s := by
  unfold totalPending
  exact Finset.single_le_sum (fun other _ => Nat.zero_le (pendingOf (s.withdrawsState other))) (Finset.mem_univ owner)

theorem le_stake (s : TomoValidator) (candidate voter : Address) :
    (s.validatorsState candidate).voters voter ≤ stake s candidate := by
  unfold stake
  exact Finset.single_le_sum (fun _ _ => Nat.zero_le _) (Finset.mem_univ voter)

/-! ## The three moves -/

section Moves

variable {s s' : TomoValidator} (inv : StakeInv s) {candidate voter : Address} {amount : Nat}
  {state : ValidatorState}
include inv

/-- A stake of `amount` credited to `voter` of `candidate`, with the account holding
it, as `propose` and `vote` do with the value of the call and the constructor with the
genesis balance; `propose` and the constructor also set the owner and the flag. -/
theorem StakeInv.credit
    (validators : s'.validatorsState = Function.update s.validatorsState candidate state)
    (cap : state.cap = (s.validatorsState candidate).cap + amount)
    (votes : state.voters = Function.update (s.validatorsState candidate).voters voter
      ((s.validatorsState candidate).voters voter + amount))
    (listedVoter : voter ∈ s'.voters candidate)
    (keepsLists : ∀ c v, v ∈ s.voters c → v ∈ s'.voters c)
    (withdraws : s'.withdrawsState = s.withdrawsState)
    (funds : totalCaps s + totalPending s + amount ≤ s'.balance)
    (minCap : s'.minCandidateCap = s.minCandidateCap)
    (owner : state.isCandidate = true → s.minCandidateCap ≤ state.voters state.owner) :
    StakeInv s' := by
  have summed := sum_update_stake (s.validatorsState candidate).voters voter
    ((s.validatorsState candidate).voters voter + amount)
  rw [← votes] at summed
  refine ⟨?_, ?_, ?_, ?_⟩
  · intro c
    rw [stake_of_validatorsState validators c, validators]
    by_cases here : c = candidate
    · subst here
      have before := inv.capStake c
      simp only [Function.update_self, if_true]
      unfold stake at before
      omega
    · simp [here, inv.capStake c]
  · have caps := totalCaps_of_validatorsState validators
    have pending : totalPending s' = totalPending s := by simp [totalPending, withdraws]
    omega
  · intro c v staked
    rw [validators] at staked
    by_cases here : c = candidate
    · subst here
      simp only [Function.update_self, votes] at staked
      by_cases same : v = voter
      · subst same
        exact listedVoter
      · simp only [Function.update_of_ne same] at staked
        exact keepsLists c v (inv.listed c v staked)
    · simp only [Function.update_of_ne here] at staked
      exact keepsLists c v (inv.listed c v staked)
  · intro c flagged
    rw [minCap, validators]
    rw [validators] at flagged
    by_cases here : c = candidate
    · subst here
      simp only [Function.update_self] at flagged ⊢
      exact owner flagged
    · simp only [Function.update_of_ne here] at flagged ⊢
      exact inv.ownerStake c flagged

/-- A stake of `amount` taken from `voter` of `candidate` into a refund bucket of
`voter`, which grows by at most `amount`, as `unvote` and `resign` do. -/
theorem StakeInv.move {bucket : WithdrawState}
    (validators : s'.validatorsState = Function.update s.validatorsState candidate state)
    (staked : amount ≤ (s.validatorsState candidate).voters voter)
    (cap : state.cap = (s.validatorsState candidate).cap - amount)
    (votes : state.voters = Function.update (s.validatorsState candidate).voters voter
      ((s.validatorsState candidate).voters voter - amount))
    (voters : s'.voters = s.voters)
    (withdraws : s'.withdrawsState = Function.update s.withdrawsState voter bucket)
    (refund : pendingOf bucket ≤ pendingOf (s.withdrawsState voter) + amount)
    (balance : s'.balance = s.balance)
    (minCap : s'.minCandidateCap = s.minCandidateCap)
    (owner : state.isCandidate = true → s.minCandidateCap ≤ state.voters state.owner) :
    StakeInv s' := by
  have summed := sum_update_stake (s.validatorsState candidate).voters voter
    ((s.validatorsState candidate).voters voter - amount)
  rw [← votes] at summed
  have before := inv.capStake candidate
  unfold stake at before
  refine ⟨?_, ?_, ?_, ?_⟩
  · intro c
    rw [stake_of_validatorsState validators c, validators]
    by_cases here : c = candidate
    · subst here
      simp only [Function.update_self, if_true]
      omega
    · simp [here, inv.capStake c]
  · have caps := totalCaps_of_validatorsState validators
    have pending := totalPending_of_withdrawsState withdraws
    have funded := inv.funded
    -- the stake of `voter` is part of the cap, so the cap shrinks by all of `amount`
    have inCap : amount ≤ (s.validatorsState candidate).cap := by
      have part := le_stake s candidate voter
      rw [← inv.capStake candidate] at part
      omega
    omega
  · intro c v staked'
    rw [voters]
    rw [validators] at staked'
    by_cases here : c = candidate
    · subst here
      simp only [Function.update_self, votes] at staked'
      by_cases same : v = voter
      · subst same
        simp only [Function.update_self] at staked'
        exact inv.listed c v (by omega)
      · simp only [Function.update_of_ne same] at staked'
        exact inv.listed c v staked'
    · simp only [Function.update_of_ne here] at staked'
      exact inv.listed c v staked'
  · intro c flagged
    rw [minCap, validators]
    rw [validators] at flagged
    by_cases here : c = candidate
    · subst here
      simp only [Function.update_self] at flagged ⊢
      exact owner flagged
    · simp only [Function.update_of_ne here] at flagged ⊢
      exact inv.ownerStake c flagged

/-- The bucket `blockNumber` of `owner` paid out of the account, as `withdraw` does. -/
theorem StakeInv.payOut {owner : Address} {blockNumber : Uint256} {bucket : WithdrawState}
    (validators : s'.validatorsState = s.validatorsState)
    (voters : s'.voters = s.voters)
    (withdraws : s'.withdrawsState = Function.update s.withdrawsState owner bucket)
    (emptied : bucket.caps = Function.update (s.withdrawsState owner).caps blockNumber 0)
    (balance : s'.balance = s.balance - (s.withdrawsState owner).caps blockNumber)
    (minCap : s'.minCandidateCap = s.minCandidateCap) :
    StakeInv s' := by
  have pending := totalPending_of_withdrawsState withdraws
  have cleared := pendingOf_of_caps emptied
  -- the bucket is part of the refunds, so the account holds it
  have inPending : (s.withdrawsState owner).caps blockNumber ≤ totalPending s :=
    (le_pendingOf _ blockNumber).trans (pendingOf_le_totalPending s owner)
  have caps : totalCaps s' = totalCaps s := by simp [totalCaps, validators]
  have funded := inv.funded
  refine ⟨?_, ?_, ?_, ?_⟩
  · intro c
    simp only [stake, validators]
    exact inv.capStake c
  · omega
  · intro c v staked
    rw [validators] at staked
    rw [voters]
    exact inv.listed c v staked
  · intro c flagged
    rw [validators] at flagged ⊢
    rw [minCap]
    exact inv.ownerStake c flagged

end Moves

/-- Appending to one voter list keeps every list's voters. -/
theorem keepsLists_append {s s' : TomoValidator} {candidate voter : Address}
    (voters : s'.voters = Function.update s.voters candidate (s.voters candidate ++ [voter])) :
    ∀ c v, v ∈ s.voters c → v ∈ s'.voters c := by
  intro c v listed
  rw [voters]
  by_cases here : c = candidate
  · subst here
    simp [listed]
  · simp [here, listed]

/-! ## The calls -/

section Calls

variable {s s' : TomoValidator} {msg : Msg} {candidate : Address}

/-- What a successful `propose` does: the sender becomes the owner of a candidate that
was none, and the value goes to the cap and to the sender's stake, which keeps the
stakes of earlier voters. -/
theorem propose_ok (word : msg.value < 2 ^ 256) (success : s.propose msg candidate = .ok s') :
    s.minCandidateCap ≤ msg.value ∧
    s'.validatorsState = Function.update s.validatorsState candidate
      ⟨msg.sender, true, (s.validatorsState candidate).cap + msg.value,
        Function.update (s.validatorsState candidate).voters msg.sender
          ((s.validatorsState candidate).voters msg.sender + msg.value)⟩ ∧
    s'.voters = Function.update s.voters candidate (s.voters candidate ++ [msg.sender]) ∧
    s'.withdrawsState = s.withdrawsState ∧ s'.balance = s.balance + msg.value ∧
    s'.minCandidateCap = s.minCandidateCap := by
  unfold TomoValidator.propose onlyValidCandidateCap onlyNotCandidate at success
  obtain ⟨enough, success⟩ := require_bind_ok success
  obtain ⟨-, success⟩ := require_bind_ok success
  obtain ⟨cap, capAdded, success⟩ := bind_eq_ok success
  obtain ⟨staked, stakeAdded, success⟩ := bind_eq_ok success
  obtain ⟨count, -, success⟩ := bind_eq_ok success
  simp only [receive, setValidator_validatorsState, Function.update_self] at capAdded stakeAdded enough
  rw [safeAdd_ok stakeAdded word, safeAdd_ok capAdded word] at success
  cases ok_injective success
  refine ⟨enough, ?_, ?_, rfl, rfl, rfl⟩ <;> simp [setVoterCap, receive]

theorem propose_stakeInv (inv : StakeInv s) (word : msg.value < 2 ^ 256)
    (success : s.propose msg candidate = .ok s') : StakeInv s' := by
  obtain ⟨enough, validators, voters, withdraws, balance, minCap⟩ := propose_ok word success
  have funds : totalCaps s + totalPending s + msg.value ≤ s'.balance := by
    have before := inv.funded
    omega
  refine inv.credit validators rfl rfl (by simp [voters]) (keepsLists_append voters) withdraws funds minCap ?_
  -- the new owner's stake is at least the value it sent
  intro _
  simp only [Function.update_self]
  omega

/-- What a successful `vote` does: the value goes to the cap and to the sender's
stake, and the sender joins the voter list with its first stake. -/
theorem vote_ok (word : msg.value < 2 ^ 256) (success : s.vote msg candidate = .ok s') :
    (s.validatorsState candidate).isCandidate = true ∧
    s'.validatorsState = Function.update s.validatorsState candidate
      { s.validatorsState candidate with
        cap := (s.validatorsState candidate).cap + msg.value
        voters := Function.update (s.validatorsState candidate).voters msg.sender
          ((s.validatorsState candidate).voters msg.sender + msg.value) } ∧
    s'.voters = (if (s.validatorsState candidate).voters msg.sender = 0 then
      Function.update s.voters candidate (s.voters candidate ++ [msg.sender]) else s.voters) ∧
    s'.withdrawsState = s.withdrawsState ∧ s'.balance = s.balance + msg.value ∧
    s'.minCandidateCap = s.minCandidateCap := by
  unfold TomoValidator.vote onlyValidVoterCap onlyValidCandidate onlyCandidate at success
  obtain ⟨-, success⟩ := require_bind_ok success
  obtain ⟨flagged, success⟩ := require_bind_ok success
  obtain ⟨cap, capAdded, success⟩ := bind_eq_ok success
  simp only [receive] at flagged capAdded
  have reads : (((s.receive msg).setCap candidate cap).validatorsState candidate).voters msg.sender =
      (s.validatorsState candidate).voters msg.sender := by
    simp [setCap, receive]
  -- the voter is pushed at its first stake only; the push leaves the stakes alone
  simp only [reads, apply_ite TomoValidator.validatorsState, pushVoter_validatorsState, ite_self] at success
  obtain ⟨staked, stakeAdded, success⟩ := bind_eq_ok success
  rw [safeAdd_ok stakeAdded word, safeAdd_ok capAdded word] at success
  cases ok_injective success
  refine ⟨flagged, ?_, ?_, ?_, ?_, ?_⟩ <;> split <;> simp [setVoterCap, setCap, receive]

theorem vote_stakeInv (inv : StakeInv s) (word : msg.value < 2 ^ 256)
    (success : s.vote msg candidate = .ok s') : StakeInv s' := by
  obtain ⟨flagged, validators, voters, withdraws, balance, minCap⟩ := vote_ok word success
  have keepsLists : ∀ c v, v ∈ s.voters c → v ∈ s'.voters c := by
    by_cases fresh : (s.validatorsState candidate).voters msg.sender = 0
    · rw [if_pos fresh] at voters
      exact keepsLists_append voters
    · rw [if_neg fresh] at voters
      intro c v listed
      rwa [voters]
  -- a voter with a stake already is on the list
  have listedVoter : msg.sender ∈ s'.voters candidate := by
    by_cases fresh : (s.validatorsState candidate).voters msg.sender = 0
    · rw [if_pos fresh] at voters
      simp [voters]
    · exact keepsLists _ _ (inv.listed candidate msg.sender (Nat.pos_of_ne_zero fresh))
  have funds : totalCaps s + totalPending s + msg.value ≤ s'.balance := by
    have before := inv.funded
    omega
  refine inv.credit validators rfl rfl listedVoter keepsLists withdraws funds minCap ?_
  -- the owner's stake does not shrink
  intro _
  have owned := inv.ownerStake candidate flagged
  by_cases sender : (s.validatorsState candidate).owner = msg.sender
  · simp only [sender, Function.update_self] at owned ⊢
    omega
  · simp only [Function.update_of_ne sender]
    exact owned

/-- What the check of `unvote` lets through. -/
theorem onlyValidVote_ok {cap : Nat} (checked : s.onlyValidVote msg candidate cap = .ok ()) :
    cap ≤ (s.validatorsState candidate).voters msg.sender ∧
    ((s.validatorsState candidate).owner = msg.sender →
      s.minCandidateCap ≤ (s.validatorsState candidate).voters msg.sender - cap) := by
  unfold onlyValidVote at checked
  obtain ⟨staked, checked⟩ := require_bind_ok checked
  refine ⟨staked, fun owner => ?_⟩
  rw [if_pos owner] at checked
  obtain ⟨rest, subtracted, checked⟩ := bind_eq_ok checked
  unfold require at checked
  split at checked
  · next kept =>
    rw [(safeSub_ok subtracted).2] at kept
    exact kept
  · cases checked

/-- A request for a refund: the bucket of `owner` grows by at most `cap`, nothing else
the accounting reads changes. -/
theorem addWithdraw_ok {owner : Address} {blockNumber : Uint256} {cap : Nat}
    (added : s.addWithdraw owner blockNumber cap = .ok s') :
    (∃ bucket, s'.withdrawsState = Function.update s.withdrawsState owner bucket ∧
      pendingOf bucket ≤ pendingOf (s.withdrawsState owner) + cap) ∧
    s'.validatorsState = s.validatorsState ∧ s'.voters = s.voters ∧ s'.balance = s.balance ∧
    s'.minCandidateCap = s.minCandidateCap := by
  unfold addWithdraw at added
  obtain ⟨pending, pendingAdded, added⟩ := bind_eq_ok added
  cases ok_injective added
  let bucket : WithdrawState :=
    ⟨Function.update (s.withdrawsState owner).caps blockNumber pending,
      (s.withdrawsState owner).blockNumbers ++ [blockNumber]⟩
  refine ⟨⟨bucket, by simp [bucket, pushBlockNumber, setWithdrawCap], ?_⟩, rfl, rfl, rfl, rfl⟩
  have grown := pendingOf_of_caps (show bucket.caps = Function.update (s.withdrawsState owner).caps blockNumber pending
    from rfl)
  have bounded := safeAdd_le pendingAdded
  omega

/-- What a successful `unvote` does: `cap` leaves the candidate's cap and the sender's
stake for a refund bucket of the sender. -/
theorem unvote_ok {number cap : Nat} (success : s.unvote msg number candidate cap = .ok s') :
    cap ≤ (s.validatorsState candidate).voters msg.sender ∧
    ((s.validatorsState candidate).owner = msg.sender →
      s.minCandidateCap ≤ (s.validatorsState candidate).voters msg.sender - cap) ∧
    s'.validatorsState = Function.update s.validatorsState candidate
      { s.validatorsState candidate with
        cap := (s.validatorsState candidate).cap - cap
        voters := Function.update (s.validatorsState candidate).voters msg.sender
          ((s.validatorsState candidate).voters msg.sender - cap) } ∧
    s'.voters = s.voters ∧
    (∃ bucket, s'.withdrawsState = Function.update s.withdrawsState msg.sender bucket ∧
      pendingOf bucket ≤ pendingOf (s.withdrawsState msg.sender) + cap) ∧
    s'.balance = s.balance ∧ s'.minCandidateCap = s.minCandidateCap := by
  unfold TomoValidator.unvote at success
  obtain ⟨⟨⟩, -, success⟩ := bind_eq_ok success
  obtain ⟨⟨⟩, checked, success⟩ := bind_eq_ok success
  obtain ⟨staked, owned⟩ := onlyValidVote_ok checked
  obtain ⟨newCap, capTaken, success⟩ := bind_eq_ok success
  obtain ⟨stake, stakeTaken, success⟩ := bind_eq_ok success
  obtain ⟨blockNumber, -, success⟩ := bind_eq_ok success
  obtain ⟨refund, validators, voters, balance, minCap⟩ := addWithdraw_ok success
  simp only [setCap, setValidator_validatorsState, Function.update_self] at stakeTaken
  rw [(safeSub_ok capTaken).2] at validators
  rw [(safeSub_ok stakeTaken).2] at validators
  refine ⟨staked, owned, ?_, voters, ?_, balance, minCap⟩
  · rw [validators]
    simp [setVoterCap, setCap]
  · simpa [setVoterCap, setCap] using refund

theorem unvote_stakeInv (inv : StakeInv s) {number cap : Nat} (success : s.unvote msg number candidate cap = .ok s') :
    StakeInv s' := by
  obtain ⟨staked, owned, validators, voters, ⟨bucket, withdraws, refund⟩, balance, minCap⟩ := unvote_ok success
  refine inv.move validators staked rfl rfl voters withdraws refund balance minCap ?_
  -- only the owner's own unvote can lower its stake, and that keeps `minCandidateCap`
  intro flagged
  by_cases sender : (s.validatorsState candidate).owner = msg.sender
  · simp only [sender, Function.update_self]
    exact owned sender
  · simp only [Function.update_of_ne sender]
    exact inv.ownerStake candidate flagged

/-- What a successful `resign` does: the owner's whole stake leaves the cap for a
refund bucket of the owner, and the candidate is one no more. -/
theorem resign_ok {number : Nat} (success : s.resign msg number candidate = .ok s') :
    s'.validatorsState = Function.update s.validatorsState candidate
      { s.validatorsState candidate with
        isCandidate := false
        cap := (s.validatorsState candidate).cap - (s.validatorsState candidate).voters msg.sender
        voters := Function.update (s.validatorsState candidate).voters msg.sender 0 } ∧
    s'.voters = s.voters ∧
    (∃ bucket, s'.withdrawsState = Function.update s.withdrawsState msg.sender bucket ∧
      pendingOf bucket ≤ pendingOf (s.withdrawsState msg.sender) + (s.validatorsState candidate).voters msg.sender) ∧
    s'.balance = s.balance ∧ s'.minCandidateCap = s.minCandidateCap := by
  unfold TomoValidator.resign at success
  obtain ⟨⟨⟩, -, success⟩ := bind_eq_ok success
  obtain ⟨⟨⟩, -, success⟩ := bind_eq_ok success
  obtain ⟨⟨⟩, -, success⟩ := bind_eq_ok success
  obtain ⟨count, -, success⟩ := bind_eq_ok success
  obtain ⟨newCap, capTaken, success⟩ := bind_eq_ok success
  obtain ⟨blockNumber, -, success⟩ := bind_eq_ok success
  obtain ⟨refund, validators, voters, balance, minCap⟩ := addWithdraw_ok success
  simp only [unsetCandidate, setValidator_validatorsState, Function.update_self] at capTaken refund
  rw [(safeSub_ok capTaken).2] at validators
  refine ⟨?_, voters, ?_, balance, minCap⟩
  · rw [validators]
    simp [setVoterCap, setCap, unsetCandidate]
  · simpa [setVoterCap, setCap, unsetCandidate] using refund

theorem resign_stakeInv (inv : StakeInv s) {number : Nat} (success : s.resign msg number candidate = .ok s') :
    StakeInv s' := by
  obtain ⟨validators, voters, ⟨bucket, withdraws, refund⟩, balance, minCap⟩ := resign_ok success
  have emptied : Function.update (s.validatorsState candidate).voters msg.sender 0 =
      Function.update (s.validatorsState candidate).voters msg.sender
        ((s.validatorsState candidate).voters msg.sender - (s.validatorsState candidate).voters msg.sender) := by
    rw [Nat.sub_self]
  -- a resigned candidate has no owner stake to keep
  exact inv.move validators le_rfl rfl emptied voters withdraws refund balance minCap (fun flagged => by cases flagged)

/-- What a successful `withdraw` does: the bucket is emptied and paid to the sender. -/
theorem withdraw_ok {number : Nat} {blockNumber : Uint256} {index : Nat}
    (success : s.withdraw msg number blockNumber index = .ok s') :
    s'.validatorsState = s.validatorsState ∧ s'.voters = s.voters ∧
    (∃ bucket, s'.withdrawsState = Function.update s.withdrawsState msg.sender bucket ∧
      bucket.caps = Function.update (s.withdrawsState msg.sender).caps blockNumber 0) ∧
    s'.balance = s.balance - (s.withdrawsState msg.sender).caps blockNumber ∧
    s'.minCandidateCap = s.minCandidateCap := by
  unfold TomoValidator.withdraw at success
  obtain ⟨⟨⟩, -, success⟩ := bind_eq_ok success
  obtain ⟨⟨⟩, -, success⟩ := bind_eq_ok success
  dsimp only at success
  cases TomoValidator.transferOut_ok success
  let bucket : WithdrawState :=
    ⟨Function.update (s.withdrawsState msg.sender).caps blockNumber 0,
      (s.withdrawsState msg.sender).blockNumbers.set index 0⟩
  refine ⟨rfl, rfl, ⟨bucket, by simp [bucket, deleteBlockNumber, setWithdrawCap], rfl⟩, ?_, rfl⟩
  simp [deleteBlockNumber, setWithdrawCap]

theorem withdraw_stakeInv (inv : StakeInv s) {number : Nat} {blockNumber : Uint256} {index : Nat}
    (success : s.withdraw msg number blockNumber index = .ok s') : StakeInv s' := by
  obtain ⟨validators, voters, ⟨bucket, withdraws, emptied⟩, balance, minCap⟩ := withdraw_ok success
  exact inv.payOut validators voters withdraws emptied balance minCap

/-- Every successful call keeps the accounting. -/
theorem execute_stakeInv (inv : StakeInv s) {number : Nat} {call : ValidatorCall} (word : msg.value < 2 ^ 256)
    (success : s.execute msg number call = .ok s') : StakeInv s' := by
  cases call with
  | propose candidate => exact propose_stakeInv inv word success
  | vote candidate => exact vote_stakeInv inv word success
  | unvote candidate cap => exact unvote_stakeInv inv success
  | resign candidate => exact resign_stakeInv inv success
  | withdraw blockNumber index => exact withdraw_stakeInv inv success

end Calls

/-! ## The constructor -/

/-- What one pass of the constructor's loop does on a candidate that has no record
yet: the first owner's stake and the cap become `minCandidateCap`. -/
theorem constructorStep_ok {t : TomoValidator} (firstOwner : Address) {candidate : Address} {cap : Nat}
    (fresh : t.validatorsState candidate = TomoValidator.empty.validatorsState candidate)
    (capMin : cap = t.minCandidateCap) :
    (constructorStep firstOwner t candidate cap).validatorsState =
      Function.update t.validatorsState candidate
        ⟨firstOwner, true, (t.validatorsState candidate).cap + t.minCandidateCap,
          Function.update (t.validatorsState candidate).voters firstOwner
            ((t.validatorsState candidate).voters firstOwner + t.minCandidateCap)⟩ ∧
    (constructorStep firstOwner t candidate cap).voters =
      Function.update t.voters candidate (t.voters candidate ++ [firstOwner]) ∧
    (constructorStep firstOwner t candidate cap).withdrawsState = t.withdrawsState ∧
    (constructorStep firstOwner t candidate cap).balance = t.balance ∧
    (constructorStep firstOwner t candidate cap).minCandidateCap = t.minCandidateCap := by
  simp only [TomoValidator.empty] at fresh
  refine ⟨?_, ?_, rfl, rfl, rfl⟩ <;> simp [constructorStep, setVoterCap, fresh, capMin]

/-- One pass of the constructor's loop on a candidate that has no record yet credits
`minCandidateCap` to the first owner out of a balance that holds it. -/
theorem constructorStep_stakeInv {t : TomoValidator} {firstOwner candidate : Address} {cap : Nat}
    (inv : StakeInv t) (fresh : t.validatorsState candidate = TomoValidator.empty.validatorsState candidate)
    (capMin : cap = t.minCandidateCap) (funds : totalCaps t + totalPending t + t.minCandidateCap ≤ t.balance) :
    StakeInv (constructorStep firstOwner t candidate cap) := by
  obtain ⟨validators, voters, withdraws, balance, minCap⟩ := constructorStep_ok firstOwner fresh capMin
  refine inv.credit validators rfl rfl (by simp [voters]) (keepsLists_append voters) withdraws
    (by rw [balance]; exact funds) minCap ?_
  intro _
  simp only [TomoValidator.empty] at fresh
  simp [fresh]

/-- The constructor's loop over distinct new candidates whose caps are all
`minCandidateCap`, out of a balance that holds them all. The induction is on the
candidates, the state generalized. -/
theorem constructorLoop_stakeInv {firstOwner : Address} {candidates : List Address} :
    ∀ {t t' : TomoValidator} {caps : List Nat}, constructorLoop firstOwner t candidates caps = .ok t' →
    StakeInv t → candidates.Nodup →
    (∀ c ∈ candidates, t.validatorsState c = TomoValidator.empty.validatorsState c) →
    (∀ cap ∈ caps, cap = t.minCandidateCap) →
    totalCaps t + totalPending t + t.minCandidateCap * candidates.length ≤ t.balance → StakeInv t' := by
  induction candidates with
  | nil =>
    intro t t' caps built inv _ _ _ _
    cases ok_injective built
    exact inv
  | cons candidate rest ih =>
    intro t t' caps built inv distinct fresh capsMin funds
    cases caps with
    | nil => cases built
    | cons cap caps =>
      simp only [constructorLoop] at built
      obtain ⟨notRest, restDistinct⟩ := List.nodup_cons.mp distinct
      have capMin := capsMin cap List.mem_cons_self
      have stepFunds : totalCaps t + totalPending t + t.minCandidateCap ≤ t.balance := by
        have more : t.minCandidateCap ≤ t.minCandidateCap * (candidate :: rest).length :=
          Nat.le_mul_of_pos_right _ (by simp)
        omega
      have here := fresh candidate List.mem_cons_self
      have step : StakeInv (constructorStep firstOwner t candidate cap) :=
        constructorStep_stakeInv inv here capMin stepFunds
      obtain ⟨validators, -, withdraws, balance, minCap⟩ := constructorStep_ok firstOwner here capMin
      refine ih built step restDistinct ?_ ?_ ?_
      · -- the other candidates keep their empty records
        intro c member
        have apart : c ≠ candidate := fun same => notRest (same ▸ member)
        simp [constructorStep, setVoterCap, apart, fresh c (List.mem_cons_of_mem _ member)]
      · intro c member
        rw [minCap]
        exact capsMin c (List.mem_cons_of_mem _ member)
      · -- the cap of the new candidate is taken from the budget of all of them
        have caps := totalCaps_of_validatorsState validators
        have pending : totalPending (constructorStep firstOwner t candidate cap) = totalPending t := by
          simp [totalPending, withdraws]
        simp only [TomoValidator.empty] at here
        simp only [here, List.length_cons] at caps funds
        rw [minCap, balance]
        rw [Nat.mul_succ] at funds
        omega

/-- The constructor with distinct candidates, each with `_caps[i] = minCandidateCap`,
and a genesis balance that holds all these caps, starts the accounting. -/
theorem constructor_stakeInv {candidates : List Address} {caps : List Nat} {firstOwner : Address}
    {minCandidateCap minVoterCap maxValidatorNumber candidateWithdrawDelay voterWithdrawDelay balance : Nat}
    {s : TomoValidator} (distinct : candidates.Nodup) (capsMin : ∀ cap ∈ caps, cap = minCandidateCap)
    (funded : minCandidateCap * candidates.length ≤ balance)
    (built : TomoValidator.constructor candidates caps firstOwner minCandidateCap minVoterCap maxValidatorNumber
      candidateWithdrawDelay voterWithdrawDelay balance = .ok s) : StakeInv s := by
  unfold TomoValidator.constructor at built
  refine constructorLoop_stakeInv built ⟨?_, ?_, ?_, ?_⟩ distinct (fun _ _ => rfl) capsMin ?_
  · intro c
    simp [stake, TomoValidator.empty]
  · simp [totalCaps, totalPending, pendingOf, TomoValidator.empty]
  · intro c v staked
    simp [TomoValidator.empty] at staked
  · intro c flagged
    simp [TomoValidator.empty] at flagged
  · simpa [totalCaps, totalPending, pendingOf, TomoValidator.empty] using funded

/-- The accounting does not read the voter lists beyond who is on them. -/
theorem StakeInv.of_voters {s : TomoValidator} (inv : StakeInv s) (voters : Address → List Address)
    (keeps : ∀ c v, v ∈ s.voters c → v ∈ voters c) : StakeInv { s with voters := voters } :=
  ⟨inv.capStake, inv.funded, fun c v staked => keeps c v (inv.listed c v staked), inv.ownerStake⟩

/-- Every run of successful calls keeps the accounting. The induction is on the calls,
the state generalized. -/
theorem runValidator_stakeInv {s s' : TomoValidator} {txs : List ValidatorTx} (inv : StakeInv s)
    (success : runValidator s txs = .ok s') : StakeInv s' := by
  induction txs generalizing s with
  | nil => cases ok_injective success; exact inv
  | cons tx rest ih =>
    obtain ⟨middle, step, rest⟩ := bind_eq_ok success
    exact ih (execute_stakeInv inv tx.valueWord step) rest

end TomoChain.Contracts
