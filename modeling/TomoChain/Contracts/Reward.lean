import Mathlib
import TomoChain.Core.StatedbUtils
import TomoChain.Lib.SortedMap
import TomoChain.Lib.ProRata

set_option autoImplicit false

/-! The checkpoint reward: `HookReward` and `rewardInflation` of `eth/backend.go`, and
`GetRewardForCheckpoint`, `CalculateRewardForSigner` and `GetRewardBalancesRate` of
`contracts/utils.go`. The chain reward of a checkpoint is shared among the masternodes
that signed the blocks of the epoch before, by the number of blocks each signed, and a
signer's share among its owner, its voters by their stake, and the foundation wallet.

The chain is read through what the reward takes from it: for each block number, the
senders of the signing transactions that name the block, and the masternodes of the
checkpoint header. The holders are read from the state of the parent block. Go maps are
`SortedMap`s, whose loops run in key order; each loop here writes or adds up one entry
per key, so the order changes nothing. Amounts are `Nat`, as a `big.Int` here is never
negative, and so are the `uint64` counts of signatures, which count signing
transactions and stay far below `2 ^ 64`. -/
namespace TomoChain.Contracts

open Lib State

/-- `common.RewardMasterPercent`. -/
def rewardMasterPercent : Nat := 40

/-- `common.RewardVoterPercent`. -/
def rewardVoterPercent : Nat := 50

/-- `common.RewardFoundationPercent`. -/
def rewardFoundationPercent : Nat := 10

/-- `common.BlocksPerYear`. -/
def blocksPerYear : Nat := 15768000

/-- `common.MergeSignRange`. -/
def mergeSignRange : Nat := 15

/-- `common.TIP2019Block`. -/
def tip2019Block : Nat := 1050000

/-- `params.Ether`. -/
def ether : Nat := 10 ^ 18

/-- `rewardInflation`: the reward halved from the second year on and quartered from the
sixth. -/
def rewardInflation (chainReward number blockPerYear : Nat) : Nat :=
  let chainReward := if blockPerYear * 2 ≤ number ∧ number < blockPerYear * 6 then chainReward / 2
    else chainReward
  if blockPerYear * 6 ≤ number then chainReward / 4 else chainReward

/-! ## Signers -/

/-- `rewardLog`: the blocks a signer signed and its reward. -/
structure RewardLog where
  sign : Nat
  reward : Nat
  deriving DecidableEq, Repr

/-- What `GetRewardForCheckpoint` reads of the chain: `data[mapBlkHash[i]]`, the senders
of the signing transactions that name block `i`, and the masternodes of the checkpoint
header before the epoch. -/
structure SigningData where
  signedBy : Nat → List Address
  masternodes : List Address

/-- `addrSigners`: the masternodes among the senders, each once. -/
def addrSignersOf (masternodes addrs : List Address) : SortedMap Address Bool :=
  masternodes.foldl (fun addrSigners masternode =>
    if masternode ∈ addrs then
      if addrSigners.get? masternode = none then addrSigners.insert masternode true else addrSigners
    else addrSigners) .empty

/-- One signature counted: the signer's `Sign` raised, or a log of one block made, and
`totalSigner` raised. -/
def countSigner (acc : SortedMap Address RewardLog × Nat) (addr : Address) :
    SortedMap Address RewardLog × Nat :=
  let signers := match acc.1.get? addr with
    | some log => acc.1.insert addr { log with sign := log.sign + 1 }
    | none => acc.1.insert addr ⟨1, 0⟩
  (signers, acc.2 + 1)

/-- The count of block `i`: past `TIP2019Block` only every `MergeSignRange`-th block
counts. -/
def countBlock (data : SigningData) (acc : SortedMap Address RewardLog × Nat) (i : Nat) :
    SortedMap Address RewardLog × Nat :=
  if i % mergeSignRange = 0 ∨ ¬tip2019Block ≤ i then
    let addrs := data.signedBy i
    if addrs.length > 0 then (addrSignersOf data.masternodes addrs).keys.foldl countSigner acc
    else acc
  else acc

/-- `GetRewardForCheckpoint`: the logs of the signers of the blocks
`number - 2 * rCheckpoint + 1` to `number - rCheckpoint`, and `totalSigner`. At a reward
checkpoint past the second, where `HookReward` calls it, no subtraction wraps. -/
def getRewardForCheckpoint (data : SigningData) (number rCheckpoint : Nat) :
    SortedMap Address RewardLog × Nat :=
  let prevCheckpoint := number - rCheckpoint * 2
  let startBlockNumber := prevCheckpoint + 1
  let endBlockNumber := startBlockNumber + rCheckpoint - 1
  (List.range' startBlockNumber (endBlockNumber + 1 - startBlockNumber)).foldl (countBlock data) (.empty, 0)

/-- `CalculateRewardForSigner`: `chainReward / totalSigner` for each block signed. The
logs get their reward written, as through the `rewardLog` pointers. -/
def calculateRewardForSigner (chainReward : Nat) (signers : SortedMap Address RewardLog) (totalSigner : Nat) :
    SortedMap Address RewardLog × SortedMap Address Nat :=
  if totalSigner > 0 then
    signers.entries.foldl (fun (acc : SortedMap Address RewardLog × SortedMap Address Nat) entry =>
      let calcReward := chainReward / totalSigner * entry.2.sign
      (acc.1.insert entry.1 { entry.2 with reward := calcReward }, acc.2.insert entry.1 calcReward))
      (signers, .empty)
  else (signers, .empty)

/-! ## Holders -/

section Holders

variable (keccak256 : List UInt8 → Hash) (statedb : Storage)

/-- The total cap and the cap of each voter: from `TIP2019Block` on a voter listed twice
is skipped, before it is counted twice in the total. -/
def voterCapsOf (masterAddr : Address) (voters : List Address) (blockNumber : Nat) :
    Nat × SortedMap Address Nat :=
  voters.foldl (fun (acc : Nat × SortedMap Address Nat) voteAddr =>
    if (acc.2.get? voteAddr).isSome ∧ tip2019Block ≤ blockNumber then acc
    else
      let voterCap := getVoterCap keccak256 statedb masterAddr voteAddr
      (acc.1 + voterCap, acc.2.insert voteAddr voterCap)) (0, .empty)

/-- The voters' shares, `totalVoterReward * voteCap / totalCap` for each voter with a
positive cap, added to the entry already there (the owner's, through its pointer). -/
def addVoterRewards (totalVoterReward totalCap : Nat) (balances voterCaps : SortedMap Address Nat) :
    SortedMap Address Nat :=
  voterCaps.entries.foldl (fun balances entry =>
    if entry.2 > 0 then
      let rcap := totalVoterReward * entry.2 / totalCap
      match balances.get? entry.1 with
      | some balance => balances.insert entry.1 (balance + rcap)
      | none => balances.insert entry.1 rcap
    else balances) balances

/-- `GetRewardBalancesRate`: 40% of a signer's reward to its owner, 50% to its voters by
their caps, and 10% to the foundation wallet, whose entry replaces any other. -/
def getRewardBalancesRate (foundationWalletAddr masterAddr : Address) (totalReward blockNumber : Nat) :
    SortedMap Address Nat :=
  let owner := getCandidateOwner keccak256 statedb masterAddr
  let rewardMaster := totalReward * rewardMasterPercent / 100
  let balances := SortedMap.empty.insert owner rewardMaster
  let voters := getVoters keccak256 statedb masterAddr
  let balances := if voters.length > 0 then
      let totalVoterReward := totalReward * rewardVoterPercent / 100
      let caps := voterCapsOf keccak256 statedb masterAddr voters blockNumber
      if caps.1 > 0 then addVoterRewards totalVoterReward caps.1 balances caps.2 else balances
    else balances
  let foundationReward := totalReward * rewardFoundationPercent / 100
  balances.insert foundationWalletAddr foundationReward

/-- The chain configuration `HookReward` reads: `Posv.Reward` in ether,
`Posv.RewardCheckpoint` and `Posv.FoudationWalletAddr`. -/
structure RewardConfig where
  reward : Nat
  rewardCheckpoint : Nat
  foudationWalletAddr : Address

/-- `HookReward`: the `AddBalance` calls it makes on the block's state, in order. -/
def hookReward (config : RewardConfig) (data : SigningData) (number : Nat) : List (Address × Nat) :=
  if config.foudationWalletAddr = 0 then [] else
  if number > 0 ∧ number - config.rewardCheckpoint > 0 ∧ config.foudationWalletAddr ≠ 0 then
    let chainReward := rewardInflation (config.reward * ether) number blocksPerYear
    let counted := getRewardForCheckpoint data number config.rewardCheckpoint
    let rewardSigners := (calculateRewardForSigner chainReward counted.1 counted.2).2
    if counted.1.size > 0 then
      rewardSigners.entries.flatMap fun entry =>
        (getRewardBalancesRate keccak256 statedb config.foudationWalletAddr entry.1 entry.2 number).entries
    else []
  else []

end Holders

/-! ## Signatures -/

/-- The signatures counted in the logs. -/
def signTotal (signers : SortedMap Address RewardLog) : Nat := (signers.values.map RewardLog.sign).sum

/-- What the count of `GetRewardForCheckpoint` keeps: `totalSigner` is the number of
signatures in the logs, and each log has at least one. -/
structure Counted (acc : SortedMap Address RewardLog × Nat) : Prop where
  total : acc.2 = signTotal acc.1
  signed : ∀ log ∈ acc.1.values, 0 < log.sign

theorem counted_empty : Counted (.empty, 0) := ⟨rfl, by simp⟩

theorem Counted.signer {acc : SortedMap Address RewardLog × Nat} (counted : Counted acc) (addr : Address) :
    Counted (countSigner acc addr) := by
  unfold countSigner
  cases found : acc.1.get? addr with
  | some log =>
    have written := SortedMap.sum_map_values_insert RewardLog.sign acc.1 addr { log with sign := log.sign + 1 }
    rw [found] at written
    refine ⟨?_, fun l mem => ?_⟩
    · simp only [Option.map_some, Option.getD_some] at written
      simp only [signTotal, counted.total] at written ⊢
      omega
    · rcases SortedMap.mem_values_insert mem with rfl | old
      · exact Nat.succ_pos _
      · exact counted.signed l old
  | none =>
    have written := SortedMap.sum_map_values_insert RewardLog.sign acc.1 addr ⟨1, 0⟩
    rw [found] at written
    refine ⟨?_, fun l mem => ?_⟩
    · simp only [Option.map_none, Option.getD_none] at written
      simp only [signTotal, counted.total] at written ⊢
      omega
    · rcases SortedMap.mem_values_insert mem with rfl | old
      · exact Nat.one_pos
      · exact counted.signed l old

theorem Counted.signers {acc : SortedMap Address RewardLog × Nat} (counted : Counted acc)
    (addrs : List Address) : Counted (addrs.foldl countSigner acc) := by
  induction addrs generalizing acc with
  | nil => exact counted
  | cons addr rest ih => exact ih (counted.signer addr)

theorem Counted.block {acc : SortedMap Address RewardLog × Nat} (counted : Counted acc)
    (data : SigningData) (i : Nat) : Counted (countBlock data acc i) := by
  unfold countBlock
  split
  · dsimp only
    split
    · exact counted.signers _
    · exact counted
  · exact counted

/-- A signer's log has a signature, so the total is positive. -/
theorem Counted.pos_of_get? {acc : SortedMap Address RewardLog × Nat} (counted : Counted acc) {signer : Address}
    {log : RewardLog} (found : acc.1.get? signer = some log) : 0 < acc.2 := by
  have stored : log ∈ acc.1.values :=
    List.mem_map.mpr ⟨(signer, log), (SortedMap.get?_eq_some_iff acc.1 signer log).mp found, rfl⟩
  have counts : log.sign ≤ signTotal acc.1 := List.le_sum_of_mem (List.mem_map_of_mem stored)
  rw [counted.total]
  exact Nat.lt_of_lt_of_le (counted.signed log stored) counts

theorem getRewardForCheckpoint_counted (data : SigningData) (number rCheckpoint : Nat) :
    Counted (getRewardForCheckpoint data number rCheckpoint) := by
  unfold getRewardForCheckpoint
  dsimp only
  generalize List.range' _ _ = blocks
  suffices all : ∀ acc, Counted acc → Counted (blocks.foldl (countBlock data) acc) from all _ counted_empty
  intro acc counted
  induction blocks generalizing acc with
  | nil => exact counted
  | cons i rest ih => exact ih _ (counted.block data i)

/-! ## Signers' rewards -/

theorem foldl_rewards_snd (chainReward totalSigner : Nat) (l : List (Address × RewardLog))
    (acc : SortedMap Address RewardLog × SortedMap Address Nat) :
    (l.foldl (fun (acc : SortedMap Address RewardLog × SortedMap Address Nat) entry =>
        let calcReward := chainReward / totalSigner * entry.2.sign
        (acc.1.insert entry.1 { entry.2 with reward := calcReward }, acc.2.insert entry.1 calcReward)) acc).2 =
      l.foldl (fun rewards entry => rewards.insert entry.1 (chainReward / totalSigner * entry.2.sign)) acc.2 := by
  induction l generalizing acc with
  | nil => rfl
  | cons entry rest ih => exact ih _

/-- The rewards `CalculateRewardForSigner` returns, without the logs it writes. -/
theorem calculateRewardForSigner_snd (chainReward : Nat) (signers : SortedMap Address RewardLog)
    (totalSigner : Nat) :
    (calculateRewardForSigner chainReward signers totalSigner).2 =
      if totalSigner > 0 then
        signers.entries.foldl (fun rewards entry => rewards.insert entry.1 (chainReward / totalSigner * entry.2.sign))
          .empty
      else .empty := by
  unfold calculateRewardForSigner
  split
  · exact foldl_rewards_snd chainReward totalSigner signers.entries (signers, .empty)
  · rfl

/-- Each signer gets `chainReward / totalSigner` for each block it signed. -/
theorem calculateRewardForSigner_get? {chainReward totalSigner : Nat} {signers : SortedMap Address RewardLog}
    (pos : 0 < totalSigner) {signer : Address} {log : RewardLog} (found : signers.get? signer = some log) :
    (calculateRewardForSigner chainReward signers totalSigner).2.get? signer =
      some (chainReward / totalSigner * log.sign) := by
  rw [calculateRewardForSigner_snd, if_pos pos]
  exact SortedMap.get?_foldl_insert_of_mem Prod.fst (fun entry => chainReward / totalSigner * entry.2.sign)
    signers.keys_nodup .empty ((SortedMap.get?_eq_some_iff signers signer log).mp found)

/-- The signers' rewards add up to at most `chainReward / totalSigner` for each signature. -/
theorem calculateRewardForSigner_sum_le (chainReward : Nat) (signers : SortedMap Address RewardLog)
    (totalSigner : Nat) :
    (calculateRewardForSigner chainReward signers totalSigner).2.values.sum ≤
      chainReward / totalSigner * signTotal signers := by
  rw [calculateRewardForSigner_snd]
  split
  · have written := SortedMap.sum_map_values_foldl_insert_le Prod.fst
      (fun entry : Address × RewardLog => chainReward / totalSigner * entry.2.sign) id signers.entries .empty
    rw [SortedMap.values_empty, List.map_nil, List.sum_nil, Nat.zero_add, List.map_id] at written
    rw [signTotal, show signers.values = signers.entries.map Prod.snd from rfl, List.map_map,
      ← List.sum_map_mul_left]
    exact written
  · simp

/-! ## Holders' rewards -/

/-- The three parts of a signer's reward add up to at most the reward. -/
theorem percents_le (totalReward : Nat) :
    totalReward * rewardMasterPercent / 100 + totalReward * rewardVoterPercent / 100 +
      totalReward * rewardFoundationPercent / 100 ≤ totalReward := by
  have shares := sum_mul_div_le totalReward 100
    (show [rewardMasterPercent, rewardVoterPercent, rewardFoundationPercent].sum ≤ 100 by decide)
  simp only [List.map_cons, List.map_nil, List.sum_cons, List.sum_nil] at shares
  omega

section Holders

variable (keccak256 : List UInt8 → Hash) (statedb : Storage)

/-- The caps kept add up to at most the total cap: a voter listed twice before
`TIP2019Block` has its cap kept once and counted twice. -/
theorem voterCapsOf_sum_le (masterAddr : Address) (voters : List Address) (blockNumber : Nat) :
    (voterCapsOf keccak256 statedb masterAddr voters blockNumber).2.values.sum ≤
      (voterCapsOf keccak256 statedb masterAddr voters blockNumber).1 := by
  unfold voterCapsOf
  generalize start : ((0 : Nat), (SortedMap.empty : SortedMap Address Nat)) = acc
  have covered : acc.2.values.sum ≤ acc.1 := by
    subst start
    simp
  clear start
  induction voters generalizing acc with
  | nil => exact covered
  | cons voteAddr rest ih =>
    apply ih
    dsimp only
    split
    · exact covered
    · have written := SortedMap.sum_values_insert acc.2 voteAddr (getVoterCap keccak256 statedb masterAddr voteAddr)
      dsimp only
      omega

/-- The voters' shares add to the balances at most their shares before rounding down. -/
theorem addVoterRewards_sum_le (totalVoterReward totalCap : Nat) (balances voterCaps : SortedMap Address Nat) :
    (addVoterRewards totalVoterReward totalCap balances voterCaps).values.sum ≤
      balances.values.sum + (voterCaps.values.map fun cap => totalVoterReward * cap / totalCap).sum := by
  unfold addVoterRewards
  rw [show voterCaps.values = voterCaps.entries.map Prod.snd from rfl, List.map_map]
  generalize voterCaps.entries = entries
  induction entries generalizing balances with
  | nil => simp
  | cons entry rest ih =>
    rw [List.foldl_cons, List.map_cons, List.sum_cons]
    refine Nat.le_trans (ih _) ?_
    dsimp only
    -- one voter: its share is added to the entry of its address, or written as a new one
    split
    · split
      · rename_i balance found
        have written := SortedMap.sum_values_insert balances entry.1 (balance + totalVoterReward * entry.2 / totalCap)
        rw [found, Option.getD_some] at written
        simp only [Function.comp_apply]
        omega
      · rename_i missing
        have written := SortedMap.sum_values_insert balances entry.1 (totalVoterReward * entry.2 / totalCap)
        rw [missing, Option.getD_none] at written
        simp only [Function.comp_apply]
        omega
    · simp only [Function.comp_apply]
      exact Nat.add_le_add_left (Nat.le_add_left _ _) _

/-- The holders of one signer get at most the signer's reward. -/
theorem getRewardBalancesRate_sum_le (foundationWalletAddr masterAddr : Address) (totalReward blockNumber : Nat) :
    (getRewardBalancesRate keccak256 statedb foundationWalletAddr masterAddr totalReward blockNumber).values.sum ≤
      totalReward := by
  have owner := SortedMap.sum_values_insert SortedMap.empty (getCandidateOwner keccak256 statedb masterAddr)
    (totalReward * rewardMasterPercent / 100)
  simp only [SortedMap.get?_empty, Option.getD_none, SortedMap.values_empty, List.sum_nil] at owner
  have parts := percents_le totalReward
  unfold getRewardBalancesRate
  dsimp only
  refine Nat.le_trans (SortedMap.sum_values_insert_le _ _ _) ?_
  -- the owner's 40%, the voters' 50% when there are voters with a cap, and the foundation's 10%
  split
  · split
    · rename_i _ capped
      have voters := addVoterRewards_sum_le (totalReward * rewardVoterPercent / 100)
        (voterCapsOf keccak256 statedb masterAddr (getVoters keccak256 statedb masterAddr) blockNumber).1
        (SortedMap.empty.insert (getCandidateOwner keccak256 statedb masterAddr) (totalReward * rewardMasterPercent / 100))
        (voterCapsOf keccak256 statedb masterAddr (getVoters keccak256 statedb masterAddr) blockNumber).2
      have shares := sum_mul_div_le (totalReward * rewardVoterPercent / 100) _
        (voterCapsOf_sum_le keccak256 statedb masterAddr (getVoters keccak256 statedb masterAddr) blockNumber)
      omega
    · omega
  · omega

/-- Paying out each entry's holders pays at most the entries' amounts. -/
theorem sum_flatMap_le (pay : Address × Nat → List (Address × Nat)) (entries : List (Address × Nat))
    (within : ∀ entry ∈ entries, ((pay entry).map Prod.snd).sum ≤ entry.2) :
    ((entries.flatMap pay).map Prod.snd).sum ≤ (entries.map Prod.snd).sum := by
  induction entries with
  | nil => simp
  | cons entry rest ih =>
    rw [List.flatMap_cons, List.map_append, List.sum_append, List.map_cons, List.sum_cons]
    exact Nat.add_le_add (within entry List.mem_cons_self) (ih fun e mem => within e (List.mem_cons_of_mem _ mem))

/-- `HookReward` credits at most the chain reward of the checkpoint. -/
theorem hookReward_sum_le (config : RewardConfig) (data : SigningData) (number : Nat) :
    ((hookReward keccak256 statedb config data number).map Prod.snd).sum ≤
      rewardInflation (config.reward * ether) number blocksPerYear := by
  unfold hookReward
  split
  · simp
  split
  · dsimp only
    split
    · generalize rewardInflation (config.reward * ether) number blocksPerYear = chainReward
      obtain ⟨total, -⟩ := getRewardForCheckpoint_counted data number config.rewardCheckpoint
      generalize getRewardForCheckpoint data number config.rewardCheckpoint = counted at total
      have paid := sum_flatMap_le _ (calculateRewardForSigner chainReward counted.1 counted.2).2.entries
        fun entry _ => getRewardBalancesRate_sum_le keccak256 statedb config.foudationWalletAddr entry.1 entry.2 number
      have signers := calculateRewardForSigner_sum_le chainReward counted.1 counted.2
      have whole := Nat.div_mul_le_self chainReward counted.2
      rw [← total] at signers
      exact Nat.le_trans paid (Nat.le_trans signers whole)
    · simp
  · simp

theorem hookReward_within_chainReward (config : RewardConfig) (data : SigningData) (number : Nat) :
    let chainReward := rewardInflation (config.reward * ether) number blocksPerYear
    let counted := getRewardForCheckpoint data number config.rewardCheckpoint
    let rewardSigners := (calculateRewardForSigner chainReward counted.1 counted.2).2
    counted.2 = (counted.1.values.map RewardLog.sign).sum ∧
      (∀ signer log, counted.1.get? signer = some log →
        rewardSigners.get? signer = some (chainReward / counted.2 * log.sign)) ∧
      (∀ signer reward, rewardSigners.get? signer = some reward →
        (getRewardBalancesRate keccak256 statedb config.foudationWalletAddr signer reward number).values.sum ≤
          reward) ∧
      ((hookReward keccak256 statedb config data number).map Prod.snd).sum ≤ chainReward := by
  intro chainReward counted rewardSigners
  have invariant := getRewardForCheckpoint_counted data number config.rewardCheckpoint
  refine ⟨invariant.total, fun signer log found => ?_, fun signer reward _ => ?_, ?_⟩
  · exact calculateRewardForSigner_get? (invariant.pos_of_get? found) found
  · exact getRewardBalancesRate_sum_le keccak256 statedb config.foudationWalletAddr signer reward number
  · exact hookReward_sum_le keccak256 statedb config data number

end Holders

end TomoChain.Contracts
