import Mathlib
import TomoChain.Posv.Snapshot
import TomoChain.Lib.SortPerm

set_option autoImplicit false

/-! The header rules of `consensus/posv/posv.go`: `Prepare`, `Finalize` and `Seal`,
which build and sign a block's header, and `verifyHeader`, `verifyCascadingFields`
and `checkSignersOnCheckpoint`, which check one.

What the engine reads outside this package is a `Chain`: the chain database, the
contracts, and the hooks that `eth/backend.go` installs, each as a function of what
it reads. `GetValidators` and the two hooks built on it are modelled from the source,
since the agreement of producer and verifier depends on what they compute; the
randomize contract and `math/rand` inside it stay functions. `verifySeal` (the
signature and turn checks) is a parameter of the verifier. -/
namespace TomoChain.Posv

/-- `extraVanity`. -/
def extraVanity : Nat := 32

/-- `extraSeal`. -/
def extraSeal : Nat := 65

/-- `common.LimitPenaltyEpoch`. -/
def limitPenaltyEpoch : Nat := 4

/-- `common.EpocBlockRandomize`. -/
def epocBlockRandomize : Nat := 900

/-- `M2ByteLength`. -/
def m2ByteLength : Nat := 4

/-- `common.TIPSigning`. -/
def tipSigning : Nat := 3000000

/-- `uncleHash`, that is `types.CalcUncleHash(nil)`: Keccak-256 of the RLP of an
empty list. -/
def uncleHash : Hash := 0x1dcc4de8dec75d7aab85b567b6ccd41ad312451b948a7413f0a142fd40d49347

/-- `ChainConfig.IsTIPSigning`: the fork is active from block `TIPSigning` on. -/
def isTIPSigning (number : Nat) : Bool := decide (tipSigning ≤ number)

/-- `big.Int.Int64` of a non-negative value: its low 64 bits in two's complement. -/
def toInt64 (n : Nat) : Int :=
  if n % 2 ^ 64 < 2 ^ 63 then (n % 2 ^ 64 : Nat) else (n % 2 ^ 64 : Nat) - 2 ^ 64

/-- The errors of the engine. `external` is an error returned by the chain, a
contract or the signer; `nilHeader` is a missing header that the Go code
dereferences. -/
inductive PosvError
  | unknownBlock
  | unknownAncestor
  | invalidTimestamp
  | invalidCheckpointBeneficiary
  | invalidVote
  | invalidCheckpointVote
  | missingVanity
  | missingSignature
  | extraSigners
  | invalidCheckpointSigners
  | invalidMixDigest
  | invalidUncleHash
  | invalidCheckpointPenalties
  | invalidCheckpointValidators
  | noValidatorSignature
  | futureBlock
  | waitTransactions
  | unauthorized
  | notFoundM1
  | nilHeader
  | external (message : String)
  deriving DecidableEq, Repr

/-- What the engine reads outside `consensus/posv`. -/
structure Chain where
  /-- `chain.GetHeader(hash, number)`. -/
  getHeader : Hash → Nat → Option Header
  /-- `Penalties()` of the canonical block at a number. -/
  blockPenalties : Nat → List UInt8
  /-- `HookPenalty(chain, number)`. -/
  hookPenalty : Nat → Except PosvError (List Address)
  /-- `HookPenaltyTIPSigning(chain, header, candidates)`, which reads the header's
  number and parent hash. -/
  hookPenaltyTIPSigning : Nat → Hash → List Address → Except PosvError (List Address)
  /-- `contracts.GetRandomizeFromContract` of a masternode. -/
  randomize : Address → Except PosvError Int
  /-- The draws of `GenM2FromRandomize` from `math/rand` seeded with a total, for a
  number of signers. -/
  shuffle : Int → Nat → List Int
  /-- `HookGetSignersFromContract(hash)`. -/
  signersFromContract : Hash → Except PosvError (List Address)
  /-- `calcDifficulty(chain, parent, signer)`. -/
  calcDifficulty : Header → Address → Nat
  /-- `GetMasternodes(chain, header)`. -/
  getMasternodes : Header → List Address
  /-- `GetValidator(signer, chain, header)`. -/
  getValidator : Address → Header → Except PosvError Address
  /-- `misc.VerifyForkHashes(chain.Config(), header, false)`. -/
  verifyForkHashes : Header → Except PosvError Unit

/-- The fields of the `Posv` engine that Prepare and Seal read: the proposals the
node votes on (`c.proposals`, in map iteration order, one entry per address) and
the signing key. -/
structure Engine where
  proposals : List (Address × Bool)
  signer : Address
  /-- `signFn(accounts.Account{Address: signer}, sigHash(header).Bytes())`. -/
  signFn : Header → Except PosvError (List UInt8)

/-- `Snapshot.GetSigners`: the signers in ascending `bytes.Compare` order, which on
big-endian addresses is the order of their values. The exchange sort of the source
and insertion give the one ordered list of distinct addresses. -/
def Snapshot.getSigners (s : Snapshot) : List Address := Lib.sortFinset id Function.injective_id s.signers

section Validators

variable (chain : Chain)

/-- `contracts.BuildValidatorFromM2`: each index in decimal, left-padded with zero
bytes to `M2ByteLength`. -/
def buildValidatorFromM2 (listM2 : List Int) : List UInt8 :=
  listM2.flatMap fun numberM2 => leftPadBytes (toString numberM2).toUTF8.toList m2ByteLength

/-- `contracts.GenM2FromRandomize`: the shuffle of the signer indices that
`math/rand` draws once seeded with the total of the randomizes. The `int64` total
wraps, which is a function of the exact sum. -/
def genM2FromRandomize (randomizes : List Int) (lenSigners : Nat) : List Int :=
  chain.shuffle randomizes.sum lenSigners

/-- `GetValidators` of `eth/backend.go`. -/
def getValidators (masternodes : List Address) : Except PosvError (List UInt8) :=
  if 0 < masternodes.length then do
    let candidates ← masternodes.mapM chain.randomize
    pure (buildValidatorFromM2 (genM2FromRandomize chain candidates masternodes.length))
  else throw PosvError.notFoundM1

/-- `HookValidator`: the validators of a checkpoint's masternodes. -/
def hookValidator (masternodes : List Address) : Except PosvError (List UInt8) :=
  getValidators chain masternodes

/-- `HookVerifyMNs`: on a randomization checkpoint, the header's validators are
those of the signers it is given. -/
def hookVerifyMNs (header : Header) (signers : List Address) : Except PosvError Unit := do
  let number := toInt64 header.number
  if 0 < number ∧ number % epocBlockRandomize = 0 then
    let validators ← getValidators chain signers
    if header.validators ≠ validators then throw PosvError.invalidCheckpointValidators

end Validators

section Penalties

variable (config : PosvConfig) (chain : Chain)

/-- The penalty hook of a checkpoint, as Prepare and checkSignersOnCheckpoint pick
it: `HookPenaltyTIPSigning` from the `TIPSigning` fork on, `HookPenalty` before. -/
def penaltiesAt (header : Header) (candidates : List Address) : Except PosvError (List Address) :=
  if isTIPSigning header.number then
    chain.hookPenaltyTIPSigning header.number header.parentHash candidates
  else chain.hookPenalty (toUint64 header.number)

/-- `RemovePenaltiesFromBlock`: drop the masternodes penalised in the block at
`epochNumber`. -/
def removePenaltiesFromBlock (masternodes : List Address) (epochNumber : Nat) : List Address :=
  if epochNumber = 0 then masternodes
  else
    let penalties := chain.blockPenalties epochNumber
    if penalties = [] then masternodes
    else removeItemFromArray masternodes (extractAddressFromBytes penalties)

/-- The loop over the last `LimitPenaltyEpoch` checkpoints that Prepare and
checkSignersOnCheckpoint share: `i * Epoch` is a `uint64` product. -/
def removeRecentPenalties (number : Nat) (signers : List Address) : List Address :=
  (List.range' 1 limitPenaltyEpoch).foldl
    (fun signers i =>
      if number > toUint64 (i * config.epoch) then
        removePenaltiesFromBlock chain signers (number - toUint64 (i * config.epoch))
      else signers)
    signers

end Penalties

section Producer

variable (config : PosvConfig) (chain : Chain) (snap : Snapshot)

/-- The random vote of Prepare off a checkpoint: among the proposals that are valid
votes, the one `rand.Intn` picks becomes the coinbase, and the nonce says its
direction. -/
def castRandomVote (proposals : List (Address × Bool)) (intn : Nat → Nat) (header : Header) :
    Header :=
  let addresses := (proposals.filter fun proposal => snap.validVote proposal.1 proposal.2).map Prod.fst
  if addresses.length = 0 then header
  else
    let coinbase := addresses.getD (intn addresses.length % addresses.length) 0
    let nonce := if (proposals.lookup coinbase).getD false then nonceAuthVote else nonceDropVote
    { header with coinbase := coinbase, nonce := nonce }

/-- The start of Prepare: no vote, and off a checkpoint a random one. -/
def prepareVote (proposals : List (Address × Bool)) (intn : Nat → Nat) (header : Header) : Header :=
  let header := { header with coinbase := 0, nonce := 0 }
  if toUint64 header.number % config.epoch ≠ 0 then castRandomVote snap proposals intn header
  else header

/-- `chain.GetHeader(header.ParentHash, number-1)`, which Prepare and
verifyCascadingFields both call. -/
def lookupParent (header : Header) : Except PosvError Header :=
  match chain.getHeader header.parentHash (toUint64 header.number - 1) with
  | some parent => pure parent
  | none => throw PosvError.unknownAncestor

/-- Prepare's vanity: the extra data padded with zeros to `extraVanity` bytes and
cut there. -/
def padVanity (extra : List UInt8) : List UInt8 :=
  let extra :=
    if extra.length < extraVanity then extra ++ List.replicate (extraVanity - extra.length) 0
    else extra
  extra.take extraVanity

/-- The checkpoint part of Prepare: the penalties of the hook, the masternodes
without the penalised ones appended to the extra data, and their validators. -/
def prepareCheckpoint (header : Header) : Except PosvError Header := do
  let masternodes := snap.getSigners
  let penMasternodes ← penaltiesAt chain header masternodes
  let penalised := 0 < penMasternodes.length
  let masternodes := if penalised then removeItemFromArray masternodes penMasternodes else masternodes
  let header :=
    if penalised then { header with penalties := extractAddressToBytes penMasternodes } else header
  let masternodes := removeRecentPenalties config chain (toUint64 header.number) masternodes
  let header := { header with extra := header.extra ++ masternodes.flatMap Address.toBytes }
  let validators ← hookValidator chain masternodes
  pure { header with validators := validators }

/-- Prepare's timestamp: the parent's plus the period, or the clock when that sum,
read as an `int64`, is earlier. -/
def prepareTime (parentTime now : Nat) : Nat :=
  let time := parentTime + config.period
  if toInt64 time < now then now else time

/-- `Posv.Prepare`, for the snapshot `snap` of the parent, the clock `now` and the
draw `intn` of `rand.Intn`. -/
def prepare (engine : Engine) (intn : Nat → Nat) (now : Nat) (header : Header) :
    Except PosvError Header := do
  let number := toUint64 header.number
  let header := prepareVote config snap engine.proposals intn header
  let parent ← lookupParent chain header
  let header := { header with difficulty := chain.calcDifficulty parent engine.signer }
  let header := { header with extra := padVanity header.extra }
  let header ←
    if config.epoch ≤ number ∧ number % config.epoch = 0 then prepareCheckpoint config chain snap header
    else pure header
  let header := { header with extra := header.extra ++ List.replicate extraSeal 0, mixDigest := 0 }
  pure { header with time := prepareTime config parent.time now }

/-- What `Posv.Finalize` changes in the header: the uncle hash of no uncles. The
reward hook and the state root do not touch the fields the engine checks. -/
def finalize (header : Header) : Header := { header with uncleHash := uncleHash }

/-- Seal waits for the next block when the signer signed one of the last two blocks
off a checkpoint and there is more than one masternode. -/
def signedRecently (signer : Address) (number : Nat) (masternodes : List Address) : Bool :=
  decide (1 < masternodes.length) &&
    snap.recents.any fun entry =>
      decide (entry.2 = signer) && (decide (number < 2) || decide (number - 2 < entry.1)) &&
        decide (number % config.epoch ≠ 0)

/-- `copy(header.Extra[len(header.Extra)-extraSeal:], sighash)`. -/
def sealSignature (extra sighash : List UInt8) : List UInt8 :=
  extra.take (extra.length - extraSeal) ++ Lib.copyInto (extra.drop (extra.length - extraSeal)) sighash

/-- `Posv.Seal` (`seal` is a keyword of Lean), with the number of transactions of
the block and whether `stop` is closed. `none` is the `nil` block of a seal that
waits or stops. -/
def sealBlock (engine : Engine) (txCount : Nat) (stopped : Bool) (header : Header) :
    Except PosvError (Option Header) :=
  let number := toUint64 header.number
  if number = 0 then throw PosvError.unknownBlock
  else if config.period = 0 ∧ txCount = 0 ∧ number % config.epoch ≠ 0 then
    throw PosvError.waitTransactions
  else
    let masternodes := chain.getMasternodes header
    if engine.signer ∉ snap.signers ∧ engine.signer ∉ masternodes then throw PosvError.unauthorized
    else if signedRecently config snap engine.signer number masternodes || stopped then pure none
    else do
      let sighash ← engine.signFn header
      let header := { header with extra := sealSignature header.extra sighash }
      let m2 ← chain.getValidator engine.signer header
      pure (some (if m2 = engine.signer then { header with validator := sighash } else header))

end Producer

section Verifier

variable (config : PosvConfig) (chain : Chain) (headerHash : Header → Hash)
  (addressString : Address → String) (snap : Snapshot)

/-- The checks of `verifyHeader` that read the header alone, from the checkpoint
beneficiary to the uncle hash. -/
def verifyHeaderFields (header : Header) : Except PosvError Unit := do
  let number := toUint64 header.number
  let checkpoint := number % config.epoch = 0
  if checkpoint ∧ header.coinbase ≠ 0 then throw PosvError.invalidCheckpointBeneficiary
  if header.nonce ≠ nonceAuthVote ∧ header.nonce ≠ nonceDropVote then throw PosvError.invalidVote
  if checkpoint ∧ header.nonce ≠ nonceDropVote then throw PosvError.invalidCheckpointVote
  if header.extra.length < extraVanity then throw PosvError.missingVanity
  if header.extra.length < extraVanity + extraSeal then throw PosvError.missingSignature
  let signersBytes := header.extra.length - extraVanity - extraSeal
  if ¬checkpoint ∧ signersBytes ≠ 0 then throw PosvError.extraSigners
  if checkpoint ∧ signersBytes % addressLength ≠ 0 then throw PosvError.invalidCheckpointSigners
  if header.mixDigest ≠ 0 then throw PosvError.invalidMixDigest
  if header.uncleHash ≠ uncleHash then throw PosvError.invalidUncleHash

/-- `compareSignersLists`: two empty lists, or the same list once both are sorted
by `Address.String()`. `sort.Slice` with the comparator `<=` leaves a list ordered
by that key, and an ordered permutation of a list is unique when the key is
injective, so insertion sort computes the same list. -/
def compareSignersLists (list1 list2 : List Address) : Bool :=
  (decide (list1.length = 0) && decide (list2.length = 0)) ||
    decide (Lib.sortByKey addressString list1 = Lib.sortByKey addressString list2)

/-- `header.Extra[extraVanity:len(header.Extra)-extraSeal]`, the masternodes of a
checkpoint. -/
def checkpointSignerBytes (header : Header) : List UInt8 :=
  (header.extra.take (header.extra.length - extraSeal)).drop extraVanity

/-- `checkSignersOnCheckpoint`. `compareSignersLists` sorts its arguments in place,
so `HookVerifyMNs` receives the signers sorted by `Address.String()`. -/
def checkSignersOnCheckpoint (header : Header) (signers : List Address) :
    Except PosvError Unit := do
  let number := toUint64 header.number
  let penPenalties ← penaltiesAt chain header signers
  if header.penalties ≠ extractAddressToBytes penPenalties then
    throw PosvError.invalidCheckpointPenalties
  let signers := removeRecentPenalties config chain number (removeItemFromArray signers penPenalties)
  let masternodesFromCheckpointHeader := extractAddressFromBytes (checkpointSignerBytes header)
  if !compareSignersLists addressString masternodesFromCheckpointHeader signers then
    throw PosvError.invalidCheckpointSigners
  hookVerifyMNs chain header (Lib.sortByKey addressString signers)

/-- The walk of `verifyCascadingFields` back over `Gap` parents to the block whose
state holds the signers of the contract. -/
def startGapBlockHeader (number : Nat) (header : Header) : Except PosvError Header :=
  (List.range' 1 config.gap).foldlM
    (fun start step =>
      match chain.getHeader start.parentHash (number - step) with
      | some parent => pure parent
      | none => throw PosvError.nilHeader)
    header

/-- `verifyCascadingFields`, with the parents read from the chain and `verifySeal`
for the seal checks it ends with. On a checkpoint the signers of the snapshot `snap`
of the parent are checked, and on failure those of the contract. -/
def verifyCascadingFields (verifySeal : Header → Except PosvError Unit) (header : Header) :
    Except PosvError Unit :=
  let number := toUint64 header.number
  if number = 0 then pure ()
  else do
    let parent ← lookupParent chain header
    if toUint64 parent.number ≠ number - 1 ∨ headerHash parent ≠ header.parentHash then
      throw PosvError.unknownAncestor
    if toUint64 (toUint64 parent.time + config.period) > toUint64 header.time then
      throw PosvError.invalidTimestamp
    if number % config.epoch ≠ 0 then verifySeal header
    else
      match checkSignersOnCheckpoint config chain addressString header snap.getSigners with
      | .ok () => verifySeal header
      | .error _ => do
          let start ← startGapBlockHeader config chain number header
          let signers ← chain.signersFromContract (headerHash start)
          checkSignersOnCheckpoint config chain addressString header signers
          verifySeal header

/-- `verifyHeader`, with the clock `now` for the future-block check of a full
verification. -/
def verifyHeader (verifySeal : Header → Except PosvError Unit) (fullVerify : Bool) (now : Nat)
    (header : Header) : Except PosvError Unit := do
  let number := toUint64 header.number
  if fullVerify then
    if number > config.epoch ∧ header.validator.length = 0 then
      throw PosvError.noValidatorSignature
    if header.time > now then throw PosvError.futureBlock
  verifyHeaderFields config header
  chain.verifyForkHashes header
  verifyCascadingFields config chain headerHash addressString snap verifySeal header

end Verifier

end TomoChain.Posv
