import Mathlib
import TomoChain.Posv.Engine
import TomoChain.Lib.Except

set_option autoImplicit false

/-! Producer and verifier of checkpoint headers agree: a header that Prepare builds,
Finalize completes and Seal signs passes the checks of `verifyHeader` that read it
alone, the parent and timestamp checks of `verifyCascadingFields`, and on a
checkpoint `checkSignersOnCheckpoint` with the signers of the same snapshot.

The proof first collects what Prepare fixes in a header into `Produced`, shows that
Finalize and Seal keep it, and then runs each check of the verifier on a header
with those properties. -/
namespace TomoChain.Posv

open Lib

/-! ## Word arithmetic -/

theorem toUint64_of_lt {n : Nat} (small : n < 2 ^ 64) : toUint64 n = n :=
  Nat.mod_eq_of_lt small

theorem toInt64_of_lt {n : Nat} (small : n < 2 ^ 63) : toInt64 n = n := by
  have word : n % 2 ^ 64 = n := Nat.mod_eq_of_lt (by omega)
  simp only [toInt64, word, small, ↓reduceIte]

/-! ## The phases of Prepare and Seal -/

section Phases

variable (config : PosvConfig) (chain : Chain) (snap : Snapshot)

/-- The vote of Prepare changes the coinbase and the nonce only, to a vote nonce. -/
theorem castRandomVote_frame (proposals : List (Address × Bool)) (intn : Nat → Nat)
    (header : Header) :
    ∃ coinbase nonce, (nonce = header.nonce ∨ nonce = nonceAuthVote ∨ nonce = nonceDropVote) ∧
      castRandomVote snap proposals intn header = { header with coinbase := coinbase, nonce := nonce } := by
  unfold castRandomVote
  dsimp only
  split
  · exact ⟨header.coinbase, header.nonce, Or.inl rfl, rfl⟩
  · refine ⟨_, _, ?_, rfl⟩
    split
    · exact Or.inr (Or.inl rfl)
    · exact Or.inr (Or.inr rfl)

theorem lookupParent_congr {header header' : Header} (number : header'.number = header.number)
    (parentHash : header'.parentHash = header.parentHash) :
    lookupParent chain header' = lookupParent chain header := by
  simp only [lookupParent, number, parentHash]

theorem penaltiesAt_congr {header header' : Header} (number : header'.number = header.number)
    (parentHash : header'.parentHash = header.parentHash) (candidates : List Address) :
    penaltiesAt chain header' candidates = penaltiesAt chain header candidates := by
  simp only [penaltiesAt, number, parentHash]

@[simp] theorem length_padVanity (extra : List UInt8) : (padVanity extra).length = extraVanity := by
  unfold padVanity
  split <;> simp <;> omega

/-- The masternodes a checkpoint lists: the signers of the snapshot without those
penalised now and at the last `LimitPenaltyEpoch` checkpoints. -/
def checkpointMasternodes (number : Nat) (penalties : List Address) : List Address :=
  removeRecentPenalties config chain number (removeItemFromArray snap.getSigners penalties)

/-- The checkpoint part of Prepare, on a header with no penalties yet. -/
theorem prepareCheckpoint_spec {header prepared : Header}
    (checkpointed : prepareCheckpoint config chain snap header = .ok prepared) (fresh : header.penalties = []) :
    ∃ penalties validators, penaltiesAt chain header snap.getSigners = .ok penalties ∧
      getValidators chain (checkpointMasternodes config chain snap (toUint64 header.number) penalties) =
        .ok validators ∧
      prepared = { header with
        penalties := extractAddressToBytes penalties
        extra := header.extra ++
          extractAddressToBytes (checkpointMasternodes config chain snap (toUint64 header.number) penalties)
        validators := validators } := by
  unfold prepareCheckpoint at checkpointed
  obtain ⟨penalties, found, rest⟩ := bind_eq_ok checkpointed
  -- with no penalties the branch that skips them computes the same list and header
  have unpenalised : (if 0 < penalties.length then removeItemFromArray snap.getSigners penalties
      else snap.getSigners) = removeItemFromArray snap.getSigners penalties := by
    split
    · rfl
    · rw [List.eq_nil_of_length_eq_zero (by omega : penalties.length = 0)]
      rfl
  have stamped : (if 0 < penalties.length then
      { header with penalties := extractAddressToBytes penalties } else header) =
      { header with penalties := extractAddressToBytes penalties } := by
    split
    · rfl
    · rw [List.eq_nil_of_length_eq_zero (by omega : penalties.length = 0)]
      show header = { header with penalties := [] }
      rw [← fresh]
  dsimp only at rest
  rw [unpenalised, stamped] at rest
  obtain ⟨validators, valid, rest⟩ := bind_eq_ok rest
  exact ⟨penalties, validators, found, valid, (ok_injective rest).symm⟩

/-- Prepare's vote: the coinbase and the nonce only, a vote nonce, and no vote on a
checkpoint. -/
theorem prepareVote_frame (proposals : List (Address × Bool)) (intn : Nat → Nat) (header : Header) :
    ∃ coinbase nonce, (nonce = nonceAuthVote ∨ nonce = nonceDropVote) ∧
      (toUint64 header.number % config.epoch = 0 → coinbase = 0 ∧ nonce = nonceDropVote) ∧
      prepareVote config snap proposals intn header = { header with coinbase := coinbase, nonce := nonce } := by
  unfold prepareVote
  dsimp only
  split
  · next offCheckpoint =>
    obtain ⟨coinbase, nonce, vote, voted⟩ :=
      castRandomVote_frame snap proposals intn { header with coinbase := 0, nonce := 0 }
    refine ⟨coinbase, nonce, ?_, fun checkpoint => absurd checkpoint offCheckpoint, voted⟩
    rcases vote with reset | auth | drop
    · exact Or.inr reset
    · exact Or.inl auth
    · exact Or.inr drop
  · exact ⟨0, 0, Or.inr rfl, fun _ => ⟨rfl, rfl⟩, rfl⟩

/-- Signing overwrites the seal and nothing before it. -/
theorem sealSignature_layout (vanity signers sealBytes sighash : List UInt8)
    (sealLength : sealBytes.length = extraSeal) :
    sealSignature (vanity ++ signers ++ sealBytes) sighash = vanity ++ signers ++ copyInto sealBytes sighash := by
  have cut : (vanity ++ signers ++ sealBytes).length - extraSeal = (vanity ++ signers).length := by
    simp only [List.length_append, sealLength]
    omega
  unfold sealSignature
  rw [cut, List.take_left' rfl, List.drop_left' rfl]

/-- A block that Seal signs is the header with the signature in its seal, and
possibly the signature as its validator. -/
theorem sealBlock_spec {engine : Engine} {txCount : Nat} {stopped : Bool} {header sealed : Header}
    (sealed_ok : sealBlock config chain snap engine txCount stopped header = .ok (some sealed)) :
    toUint64 header.number ≠ 0 ∧ ∃ sighash validator,
      sealed = { header with extra := sealSignature header.extra sighash, validator := validator } := by
  unfold sealBlock at sealed_ok
  dsimp only at sealed_ok
  split at sealed_ok
  · cases sealed_ok
  · next nonzero =>
    refine ⟨nonzero, ?_⟩
    split at sealed_ok
    · cases sealed_ok
    · split at sealed_ok
      · cases sealed_ok
      · split at sealed_ok
        · cases sealed_ok
        · -- the signing branch: sign, then ask for the validator of the signer
          obtain ⟨sighash, -, rest⟩ := bind_eq_ok sealed_ok
          obtain ⟨m2, -, rest⟩ := bind_eq_ok rest
          have signed := Option.some_injective _ (ok_injective rest)
          split at signed
          · exact ⟨sighash, sighash, signed.symm⟩
          · exact ⟨sighash, header.validator, signed.symm⟩

end Phases

/-! ## What Prepare fixes in a header -/

section Producer

variable (config : PosvConfig) (chain : Chain) (snap : Snapshot)

/-- What Prepare fixes in a header and Finalize and Seal keep, for the header given
to Prepare, the parent it finds and the clock: the fields the verifier reads, with
`signers` the bytes of the extra data between the vanity and the seal. -/
structure Produced (header parent : Header) (now : Nat) (signers : List UInt8) (h : Header) :
    Prop where
  number : h.number = header.number
  parentHash : h.parentHash = header.parentHash
  vote : h.nonce = nonceAuthVote ∨ h.nonce = nonceDropVote
  checkpointVote : toUint64 header.number % config.epoch = 0 → h.coinbase = 0 ∧ h.nonce = nonceDropVote
  layout : ∃ vanity sealBytes, vanity.length = extraVanity ∧ sealBytes.length = extraSeal ∧
    h.extra = vanity ++ signers ++ sealBytes
  offCheckpoint : toUint64 header.number % config.epoch ≠ 0 → signers = []
  wholeSigners : signers.length % addressLength = 0
  masternodes : config.epoch ≤ toUint64 header.number → toUint64 header.number % config.epoch = 0 →
    ∃ penalties, penaltiesAt chain header snap.getSigners = .ok penalties ∧
      h.penalties = extractAddressToBytes penalties ∧
      signers = extractAddressToBytes
        (checkpointMasternodes config chain snap (toUint64 header.number) penalties) ∧
      getValidators chain (checkpointMasternodes config chain snap (toUint64 header.number) penalties) =
        .ok h.validators
  mixDigest : h.mixDigest = 0
  time : h.time = prepareTime config parent.time now

/-- Prepare, on a header with no penalties yet, produces a header with the
properties of `Produced`, for the parent it looks up. -/
theorem prepare_spec (engine : Engine) (intn : Nat → Nat) (now : Nat) {header prepared : Header}
    (fresh : header.penalties = [])
    (prepared_ok : prepare config chain snap engine intn now header = .ok prepared) :
    ∃ parent signers, lookupParent chain header = .ok parent ∧
      Produced config chain snap header parent now signers prepared := by
  unfold prepare at prepared_ok
  obtain ⟨coinbase, nonce, vote, checkpointVote, voted⟩ :=
    prepareVote_frame config snap engine.proposals intn header
  rw [voted] at prepared_ok
  obtain ⟨parent, found, rest⟩ := bind_eq_ok prepared_ok
  dsimp only at rest
  refine ⟨parent, ?_⟩
  by_cases checkpoint : config.epoch ≤ toUint64 header.number ∧ toUint64 header.number % config.epoch = 0
  · -- a checkpoint: the masternodes of the snapshot without the penalised ones
    rw [if_pos checkpoint] at rest
    obtain ⟨checkpointed, stepped, rest⟩ := bind_eq_ok rest
    cases ok_injective rest
    obtain ⟨penalties, validators, penalised, valid, rfl⟩ := prepareCheckpoint_spec config chain snap stepped fresh
    refine ⟨_, found, ⟨rfl, rfl, vote, checkpointVote, ⟨_, _, length_padVanity _, List.length_replicate, rfl⟩,
      fun offCheckpoint => absurd checkpoint.2 offCheckpoint, ?_, ?_, rfl, rfl⟩⟩
    · rw [length_extractAddressToBytes]
      exact Nat.mul_mod_right _ _
    · intro _ _
      exact ⟨penalties, penalised, rfl, rfl, valid⟩
  · rw [if_neg checkpoint] at rest
    simp only [pure_eq_ok, ok_bind] at rest
    cases ok_injective rest
    refine ⟨[], found, ⟨rfl, rfl, vote, checkpointVote,
      ⟨padVanity header.extra, List.replicate extraSeal 0, length_padVanity _, List.length_replicate,
        by rw [List.append_nil]⟩,
      fun _ => rfl, rfl, fun after onCheckpoint => absurd ⟨after, onCheckpoint⟩ checkpoint, rfl, rfl⟩⟩

variable {config chain snap}
variable {header parent h : Header} {now : Nat} {signers : List UInt8}

theorem Produced.finalize (produced : Produced config chain snap header parent now signers h) :
    Produced config chain snap header parent now signers (finalize h) :=
  { produced with }

theorem Produced.sealBlock {engine : Engine} {txCount : Nat} {stopped : Bool} {sealed : Header}
    (produced : Produced config chain snap header parent now signers h)
    (sealed_ok : sealBlock config chain snap engine txCount stopped h = .ok (some sealed)) :
    Produced config chain snap header parent now signers sealed := by
  obtain ⟨-, sighash, validator, rfl⟩ := sealBlock_spec config chain snap sealed_ok
  obtain ⟨vanity, sealBytes, vanityLength, sealLength, extra⟩ := produced.layout
  refine { produced with layout := ⟨vanity, copyInto sealBytes sighash, vanityLength, ?_, ?_⟩ }
  · rw [length_copyInto, sealLength]
  · show sealSignature h.extra sighash = _
    rw [extra, sealSignature_layout _ _ _ _ sealLength]

theorem Produced.checkpointSignerBytes_eq (produced : Produced config chain snap header parent now signers h) :
    checkpointSignerBytes h = signers := by
  obtain ⟨vanity, sealBytes, vanityLength, sealLength, extra⟩ := produced.layout
  have cut : (vanity ++ signers ++ sealBytes).length - extraSeal = (vanity ++ signers).length := by
    simp only [List.length_append, sealLength]
    omega
  unfold checkpointSignerBytes
  rw [extra, cut, List.take_left' rfl, List.drop_left' vanityLength]

theorem Produced.extraLength (produced : Produced config chain snap header parent now signers h) :
    h.extra.length = extraVanity + signers.length + extraSeal := by
  obtain ⟨vanity, sealBytes, vanityLength, sealLength, extra⟩ := produced.layout
  rw [extra, List.length_append, List.length_append, vanityLength, sealLength]

end Producer

/-! ## The verifier on a produced header -/

section Verifier

variable (chain : Chain)

/-- `GetValidators` reads the masternodes only through the total and the count of
their randomizes, so a permutation of them has the same validators. -/
theorem getValidators_perm {masternodes masternodes' : List Address} {validators : List UInt8}
    (perm : masternodes.Perm masternodes')
    (valid : getValidators chain masternodes = .ok validators) :
    getValidators chain masternodes' = .ok validators := by
  unfold getValidators at valid ⊢
  rw [← perm.length_eq]
  split at valid
  · next nonempty =>
    rw [if_pos nonempty]
    obtain ⟨candidates, drawn, rest⟩ := bind_eq_ok valid
    obtain ⟨candidates', drawn', permuted⟩ := mapM_perm_of_ok perm drawn
    rw [drawn', ok_bind, ← rest, genM2FromRandomize, genM2FromRandomize, permuted.sum_eq]
  · cases valid

/-- `HookVerifyMNs` accepts the validators of any order of the signers. -/
theorem hookVerifyMNs_of_perm {header : Header} {signers signers' : List Address}
    (valid : getValidators chain signers = .ok header.validators) (perm : signers.Perm signers') :
    hookVerifyMNs chain header signers' = .ok () := by
  unfold hookVerifyMNs
  dsimp only
  split
  · rw [getValidators_perm chain perm valid, ok_bind]
    simp
  · rfl

theorem compareSignersLists_self (addressString : Address → String) (signers : List Address) :
    compareSignersLists addressString signers signers = true := by
  simp [compareSignersLists]

/-- With an injective `Address.String()`, `compareSignersLists` holds exactly for
two permutations of one list: sorting by the key forgets only the order. -/
theorem compareSignersLists_iff_perm (addressString : Address → String)
    (injective : Function.Injective addressString) (list1 list2 : List Address) :
    compareSignersLists addressString list1 list2 = true ↔ list1.Perm list2 := by
  simp only [compareSignersLists, Bool.or_eq_true, Bool.and_eq_true, decide_eq_true_eq,
    sortByKey_eq_iff_perm addressString injective]
  constructor
  · rintro (⟨empty1, empty2⟩ | perm)
    · rw [List.eq_nil_of_length_eq_zero empty1, List.eq_nil_of_length_eq_zero empty2]
    · exact perm
  · exact Or.inr

variable {config : PosvConfig} {chain} {snap : Snapshot}
variable {header parent h : Header} {now : Nat} {signers : List UInt8}

/-- A produced header passes the checks of `verifyHeader` that read it alone once
Finalize has set its uncle hash. -/
theorem verifyHeaderFields_of_produced (produced : Produced config chain snap header parent now signers h)
    (uncle : h.uncleHash = uncleHash) :
    verifyHeaderFields config h = .ok () := by
  have length := produced.extraLength
  have vanityPresent : ¬ h.extra.length < extraVanity := by
    rw [length]
    omega
  have sealPresent : ¬ h.extra.length < extraVanity + extraSeal := by
    rw [length]
    omega
  have signersBytes : h.extra.length - extraVanity - extraSeal = signers.length := by
    rw [length]
    omega
  unfold verifyHeaderFields
  by_cases checkpoint : toUint64 header.number % config.epoch = 0
  · -- no vote and whole addresses between the vanity and the seal
    obtain ⟨coinbase, nonce⟩ := produced.checkpointVote checkpoint
    simp [produced.number, checkpoint, coinbase, nonce, vanityPresent, sealPresent, signersBytes,
      produced.wholeSigners, produced.mixDigest, uncle]
  · -- a vote nonce and nothing between the vanity and the seal
    have empty := produced.offCheckpoint checkpoint
    rcases produced.vote with auth | drop
    · simp [produced.number, checkpoint, auth, vanityPresent, sealPresent, signersBytes, empty,
        produced.mixDigest, uncle]
    · simp [produced.number, checkpoint, drop, vanityPresent, sealPresent, signersBytes, empty,
        produced.mixDigest, uncle]

/-- At a checkpoint a produced header lists exactly the masternodes the verifier
computes, in the same order, so `checkSignersOnCheckpoint` accepts it with the
signers of the same snapshot. -/
theorem checkSignersOnCheckpoint_of_produced (addressString : Address → String)
    (produced : Produced config chain snap header parent now signers h)
    (after : config.epoch ≤ toUint64 header.number) (checkpoint : toUint64 header.number % config.epoch = 0) :
    checkSignersOnCheckpoint config chain addressString h snap.getSigners = .ok () := by
  obtain ⟨penalties, found, stamped, listed, valid⟩ := produced.masternodes after checkpoint
  have foundHere : penaltiesAt chain h snap.getSigners = .ok penalties :=
    (penaltiesAt_congr chain produced.number produced.parentHash _).trans found
  have extracted : extractAddressFromBytes (checkpointSignerBytes h) =
      checkpointMasternodes config chain snap (toUint64 header.number) penalties := by
    rw [produced.checkpointSignerBytes_eq, listed, extractAddressFromBytes_extractAddressToBytes]
  unfold checkSignersOnCheckpoint
  rw [foundHere, ok_bind]
  simp only [stamped, ne_eq, not_true_eq_false, if_false, produced.number, extracted]
  rw [← checkpointMasternodes, compareSignersLists_self]
  exact hookVerifyMNs_of_perm chain valid (sortByKey_perm addressString _).symm

/-- Prepare's timestamp is not before the parent's plus the period, read as the
verifier reads both, while the sum and the clock stay in `int64`. -/
theorem prepareTime_on_time (config : PosvConfig) {parentTime now : Nat}
    (bound : parentTime + config.period < 2 ^ 63) (clock : now < 2 ^ 63) :
    ¬ toUint64 (toUint64 parentTime + config.period) > toUint64 (prepareTime config parentTime now) := by
  have later : parentTime + config.period ≤ prepareTime config parentTime now ∧
      prepareTime config parentTime now < 2 ^ 63 := by
    unfold prepareTime
    dsimp only
    rw [toInt64_of_lt bound]
    split <;> omega
  rw [toUint64_of_lt (n := parentTime) (by omega), toUint64_of_lt (by omega), toUint64_of_lt (by omega)]
  omega

/-- The cascading checks pass a produced header on to `verifySeal`: its parent is
the one Prepare found, its timestamp is late enough, and at a checkpoint its
masternodes are those of the snapshot. -/
theorem verifyCascadingFields_of_produced (headerHash : Header → Hash) (addressString : Address → String)
    (verifySeal : Header → Except PosvError Unit)
    (produced : Produced config chain snap header parent now signers h)
    (lookup : ∀ hash number found, chain.getHeader hash number = some found →
      toUint64 found.number = number ∧ headerHash found = hash)
    (found : lookupParent chain header = .ok parent)
    (parentTime : parent.time + config.period < 2 ^ 63) (clock : now < 2 ^ 63)
    (nonzero : toUint64 header.number ≠ 0) :
    verifyCascadingFields config chain headerHash addressString snap verifySeal h = verifySeal h := by
  have foundHere : lookupParent chain h = .ok parent :=
    (lookupParent_congr chain produced.number produced.parentHash).trans found
  have linked : toUint64 parent.number = toUint64 header.number - 1 ∧ headerHash parent = header.parentHash := by
    unfold lookupParent at found
    split at found
    · next stored =>
      cases ok_injective found
      exact lookup _ _ _ stored
    · cases found
  have onTime := prepareTime_on_time config parentTime clock
  rw [← produced.time] at onTime
  unfold verifyCascadingFields
  simp only [produced.number, nonzero, if_false, foundHere, ok_bind, linked, produced.parentHash,
    ne_eq, not_true_eq_false, or_self, onTime]
  split
  · rfl
  · next checkpoint =>
    have multiple : toUint64 header.number % config.epoch = 0 := not_not.mp checkpoint
    -- a non-zero multiple of the epoch is at least the epoch
    have after : config.epoch ≤ toUint64 header.number :=
      Nat.le_of_dvd (Nat.pos_of_ne_zero nonzero) (Nat.dvd_of_mod_eq_zero multiple)
    rw [checkSignersOnCheckpoint_of_produced addressString produced after multiple]

end Verifier

/-! ## Producer and verifier agree -/

/-- A header that Prepare builds from a header with no penalties, Finalize completes
and Seal signs passes the checks of `verifyHeader` that read it alone and the
cascading checks up to `verifySeal`; at a checkpoint `checkSignersOnCheckpoint`
accepts it with the signers of the snapshot, its penalties are those of the hook and
the masternodes it lists are the snapshot's signers without the penalised ones, which
`compareSignersLists` accepts as it accepts every permutation. The
parent's timestamp plus the period and the clock must stay below `2^63`: Prepare
compares their sum as an `int64` and the verifier as a `uint64`. -/
theorem sealed_header_verifies (config : PosvConfig) (chain : Chain) (headerHash : Header → Hash)
    (addressString : Address → String) (snap : Snapshot) (engine : Engine) (intn : Nat → Nat)
    (now txCount : Nat) (stopped : Bool) (verifySeal : Header → Except PosvError Unit)
    (header parent prepared sealed : Header)
    (lookup : ∀ hash number found, chain.getHeader hash number = some found →
      toUint64 found.number = number ∧ headerHash found = hash)
    (fresh : header.penalties = [])
    (found : chain.getHeader header.parentHash (toUint64 header.number - 1) = some parent)
    (parentTime : parent.time + config.period < 2 ^ 63) (clock : now < 2 ^ 63)
    (prepared_ok : prepare config chain snap engine intn now header = .ok prepared)
    (sealed_ok : sealBlock config chain snap engine txCount stopped (finalize prepared) = .ok (some sealed)) :
    verifyHeaderFields config sealed = .ok () ∧
      verifyCascadingFields config chain headerHash addressString snap verifySeal sealed = verifySeal sealed ∧
      (toUint64 sealed.number % config.epoch = 0 →
        checkSignersOnCheckpoint config chain addressString sealed snap.getSigners = .ok () ∧
        ∃ penalties, penaltiesAt chain sealed snap.getSigners = .ok penalties ∧
          sealed.penalties = extractAddressToBytes penalties ∧
          (extractAddressFromBytes (checkpointSignerBytes sealed)).Perm
            (removeRecentPenalties config chain (toUint64 sealed.number)
              (removeItemFromArray snap.getSigners penalties))) ∧
      (Function.Injective addressString → ∀ list1 list2,
        compareSignersLists addressString list1 list2 = true ↔ list1.Perm list2) := by
  have parentFound : lookupParent chain header = .ok parent := by
    simp only [lookupParent, found]
    rfl
  obtain ⟨parent', signers, found', produced⟩ := prepare_spec config chain snap engine intn now fresh prepared_ok
  cases ok_injective (found'.symm.trans parentFound)
  have signed := produced.finalize.sealBlock sealed_ok
  obtain ⟨nonzero, sighash, validator, rfl⟩ := sealBlock_spec config chain snap sealed_ok
  have sameNumber : toUint64 (finalize prepared).number = toUint64 header.number := by
    rw [← produced.number]
    rfl
  rw [sameNumber] at nonzero
  refine ⟨verifyHeaderFields_of_produced signed rfl,
    verifyCascadingFields_of_produced headerHash addressString verifySeal signed lookup parentFound
      parentTime clock nonzero, ?_, compareSignersLists_iff_perm addressString⟩
  intro checkpoint
  have multiple : toUint64 header.number % config.epoch = 0 := by
    rw [← produced.number]
    exact checkpoint
  have after : config.epoch ≤ toUint64 header.number :=
    Nat.le_of_dvd (Nat.pos_of_ne_zero nonzero) (Nat.dvd_of_mod_eq_zero multiple)
  obtain ⟨penalties, penalised, stamped, listed, -⟩ := signed.masternodes after multiple
  refine ⟨checkSignersOnCheckpoint_of_produced addressString signed after multiple, penalties,
    (penaltiesAt_congr chain signed.number signed.parentHash _).trans penalised, stamped, ?_⟩
  rw [signed.checkpointSignerBytes_eq, listed, extractAddressFromBytes_extractAddressToBytes,
    signed.number]
  exact List.Perm.refl _

/-- The configuration of the examples below: a period of two seconds and epochs of
900 blocks. -/
def agreementConfig : PosvConfig := ⟨2, 900, 5, by decide⟩

/-- A chain holding one header, `parent`, under the hash 7, with no penalties. -/
def agreementChain (parent : Header) : Chain where
  getHeader hash number := if hash = 7 ∧ number = toUint64 parent.number then some parent else none
  blockPenalties _ := []
  hookPenalty _ := .ok []
  hookPenaltyTIPSigning _ _ _ := .ok []
  randomize _ := .ok 1
  shuffle _ _ := []
  signersFromContract _ := .ok []
  calcDifficulty _ _ := 1
  getMasternodes _ := [1, 2]
  getValidator _ _ := .ok 0
  verifyForkHashes _ := .ok ()

/-- A signer with no proposals and a fixed signature. -/
def agreementEngine : Engine := ⟨[], 1, fun _ => .ok (List.replicate 65 9)⟩

/-- The header the miner hands to Prepare for block `number` on top of the hash 7. -/
def workHeader (number : Nat) : Header :=
  { parentHash := 7, uncleHash := 0, coinbase := 5, difficulty := 0, number := number, time := 0,
    extra := [], mixDigest := 0, nonce := 0, validators := [], validator := [], penalties := [] }

/-- The parent of `workHeader number` with timestamp `time`. -/
def parentHeader (number time : Nat) : Header :=
  { workHeader number with parentHash := 3, time := time }

theorem agreementChain_lookup (parent : Header) :
    ∀ hash number found, (agreementChain parent).getHeader hash number = some found →
      toUint64 found.number = number ∧ (fun _ => (7 : Hash)) found = hash := by
  intro hash number found stored
  simp only [agreementChain] at stored
  split at stored
  · next stores =>
    cases stored
    exact ⟨stores.2.symm, stores.1.symm⟩
  · cases stored

/-- The checkpoint at block 900 of two masternodes is built, signed and verified. -/
theorem sealed_header_verifies_checkpoint :
    ∃ prepared sealed,
      prepare agreementConfig (agreementChain (parentHeader 899 10)) (newSnapshot 899 7 [1, 2])
        agreementEngine (fun _ => 0) 5 (workHeader 900) = .ok prepared ∧
      sealBlock agreementConfig (agreementChain (parentHeader 899 10)) (newSnapshot 899 7 [1, 2])
        agreementEngine 0 false (finalize prepared) = .ok (some sealed) ∧
      verifyHeaderFields agreementConfig sealed = .ok () ∧
      verifyCascadingFields agreementConfig (agreementChain (parentHeader 899 10)) (fun _ => 7)
        (fun a => toString a.val) (newSnapshot 899 7 [1, 2]) (fun _ => .ok ()) sealed = .ok () := by
  obtain ⟨prepared, sealed, prepared_ok, sealed_ok⟩ : ∃ prepared sealed,
      prepare agreementConfig (agreementChain (parentHeader 899 10)) (newSnapshot 899 7 [1, 2])
        agreementEngine (fun _ => 0) 5 (workHeader 900) = .ok prepared ∧
      sealBlock agreementConfig (agreementChain (parentHeader 899 10)) (newSnapshot 899 7 [1, 2])
        agreementEngine 0 false (finalize prepared) = .ok (some sealed) := ⟨_, _, rfl, rfl⟩
  obtain ⟨fields, cascading, -, -⟩ := sealed_header_verifies agreementConfig
    (agreementChain (parentHeader 899 10)) (fun _ => 7) (fun a => toString a.val)
    (newSnapshot 899 7 [1, 2]) agreementEngine (fun _ => 0) 5 0 false (fun _ => .ok ()) (workHeader 900)
    (parentHeader 899 10) prepared sealed (agreementChain_lookup _) rfl rfl (by decide) (by decide)
    prepared_ok sealed_ok
  exact ⟨prepared, sealed, prepared_ok, sealed_ok, fields, cascading⟩

/-- Prepare and the verifier read the parent's time plus the period differently: with a
parent stamped `2^63 - 1` and a period of two seconds, Prepare reads the sum as a
negative `int64` and takes the clock, 1000, while `verifyCascadingFields` reads it as the
`uint64` `2^63 + 1`, later than the header, and rejects the header it sealed. -/
theorem sealed_header_rejected_past_int64 :
    ∃ prepared sealed,
      prepare agreementConfig (agreementChain (parentHeader 0 (2 ^ 63 - 1))) (newSnapshot 0 7 [1, 2])
        agreementEngine (fun _ => 0) 1000 (workHeader 1) = .ok prepared ∧
      sealBlock agreementConfig (agreementChain (parentHeader 0 (2 ^ 63 - 1))) (newSnapshot 0 7 [1, 2])
        agreementEngine 1 false (finalize prepared) = .ok (some sealed) ∧
      verifyCascadingFields agreementConfig (agreementChain (parentHeader 0 (2 ^ 63 - 1))) (fun _ => 7)
        (fun a => toString a.val) (newSnapshot 0 7 [1, 2]) (fun _ => .ok ()) sealed =
        .error PosvError.invalidTimestamp :=
  ⟨_, _, rfl, rfl, by decide⟩

end TomoChain.Posv
