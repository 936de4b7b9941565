import Mathlib
import TomoChain.Core.Header

set_option autoImplicit false

/-! The voting snapshot of `consensus/posv/snapshot.go`: the authorised signers,
the recent signers, the chronological vote list and the tally cached from it,
and `apply`, which folds a chain of headers into a new snapshot. -/
namespace TomoChain.Posv

/-- `params.PosvConfig`. A zero epoch makes every `number % Epoch` of the engine
panic, so the structure carries the positivity of the epoch. -/
structure PosvConfig where
  period : Nat
  epoch : Nat
  gap : Nat
  epoch_pos : 0 < epoch

/-- `nonceAuthVote`, the magic nonce of a vote to add a signer. -/
def nonceAuthVote : BlockNonce := 0xffffffffffffffff

/-- `nonceDropVote`, the magic nonce of a vote to remove a signer. -/
def nonceDropVote : BlockNonce := 0

/-- `big.Int.Uint64` of a non-negative value: its low 64 bits. -/
def toUint64 (n : Nat) : Nat := n % 2 ^ 64

/-- `clique.Vote`. -/
structure Vote where
  signer : Address
  block : Nat
  address : Address
  authorize : Bool
  deriving DecidableEq, Repr

/-- `clique.Tally`. A missing map entry reads as the zero tally. -/
structure Tally where
  authorize : Bool
  votes : Nat
  deriving DecidableEq, Repr

/-- `Snapshot`. The Go maps keyed by block number and by address are a list of
entries with distinct keys (`recents`, which `Seal` iterates) and a function that
reads a missing entry as `none` (`tally`, which is only looked up). -/
structure Snapshot where
  number : Nat
  hash : Hash
  signers : Finset Address
  recents : List (Nat × Address)
  votes : List Vote
  tally : Address → Option Tally

/-- `newSnapshot`: the genesis snapshot, with no recents, votes or tally. -/
def newSnapshot (number : Nat) (hash : Hash) (signers : List Address) : Snapshot where
  number := number
  hash := hash
  signers := signers.toFinset
  recents := []
  votes := []
  tally := fun _ => none

namespace Snapshot

/-- `validVote`: adding only a non-signer, removing only a signer. -/
def validVote (s : Snapshot) (address : Address) (authorize : Bool) : Bool :=
  let signer := decide (address ∈ s.signers)
  (signer && !authorize) || (!signer && authorize)

/-- `cast`: count a meaningful vote into an existing or a new tally. -/
def cast (s : Snapshot) (address : Address) (authorize : Bool) : Bool × Snapshot :=
  if !s.validVote address authorize then (false, s)
  else
    match s.tally address with
    | some old =>
        (true, { s with tally := Function.update s.tally address (some { old with votes := old.votes + 1 }) })
    | none =>
        (true, { s with tally := Function.update s.tally address (some ⟨authorize, 1⟩) })

/-- `uncast`: revert a counted vote; a dangling or opposite vote is ignored. -/
def uncast (s : Snapshot) (address : Address) (authorize : Bool) : Bool × Snapshot :=
  match s.tally address with
  | none => (false, s)
  | some tally =>
      if tally.authorize ≠ authorize then (false, s)
      else if tally.votes > 1 then
        (true, { s with tally := Function.update s.tally address (some { tally with votes := tally.votes - 1 }) })
      else (true, { s with tally := Function.update s.tally address none })

/-- Delete the oldest recent signer, `number - limit`, where the limit is half the
signers plus one. -/
def forgetRecent (s : Snapshot) (number : Nat) : Snapshot :=
  let limit := s.signers.card / 2 + 1
  if limit ≤ number then { s with recents := s.recents.filter (fun entry => entry.1 ≠ number - limit) }
  else s

/-- The vote of `signer` on `coinbase`, if any; `apply` allows only one. -/
def sameVote (signer coinbase : Address) (vote : Vote) : Bool :=
  vote.signer = signer && vote.address = coinbase

/-- The first vote loop of `apply`: uncast the signer's previous vote on the
header's coinbase and delete it from the list; the loop breaks at the first. -/
def discardVote (s : Snapshot) (signer coinbase : Address) : Snapshot :=
  match s.votes.find? (sameVote signer coinbase) with
  | none => s
  | some vote =>
      let s := (s.uncast vote.address vote.authorize).2
      { s with votes := s.votes.eraseP (sameVote signer coinbase) }

/-- The uncasts of the deauthorisation loop of `apply`: the votes of `votes` cast
by `coinbase`, uncast in list order. -/
def uncastVotesBy (coinbase : Address) : List Vote → Snapshot → Snapshot
  | [], s => s
  | vote :: rest, s =>
      uncastVotesBy coinbase rest (if vote.signer = coinbase then (s.uncast vote.address vote.authorize).2 else s)

/-- `for i := 0; i < len(snap.Votes); i++ { if snap.Votes[i].Signer == coinbase { uncast; delete; i-- } }`.
The loop visits every vote once, in order, so it is the uncasts of the votes cast
by `coinbase` and the filter that keeps the others. -/
def discardVotesBy (s : Snapshot) (coinbase : Address) : Snapshot :=
  { uncastVotesBy coinbase s.votes s with votes := s.votes.filter (fun vote => vote.signer ≠ coinbase) }

/-- The end of a header in `apply`: if the coinbase's tally has more votes than
half the signers, add or remove it as a signer, and forget every vote on it. -/
def passVote (s : Snapshot) (number : Nat) (coinbase : Address) : Snapshot :=
  let tally := (s.tally coinbase).getD ⟨false, 0⟩
  if tally.votes > s.signers.card / 2 then
    let s :=
      if tally.authorize then { s with signers := insert coinbase s.signers }
      else
        let s := { s with signers := s.signers.erase coinbase }
        -- Signer list shrunk, delete any leftover recent caches
        (s.forgetRecent number).discardVotesBy coinbase
    { s with
      votes := s.votes.filter (fun vote => vote.address ≠ coinbase)
      tally := Function.update s.tally coinbase none }
  else s

end Snapshot

inductive ApplyError
  | invalidVotingChain
  | invalidVote
  | unrecoverableSigner
  deriving DecidableEq, Repr

/-- The vote direction of a header's nonce; any other nonce is `errInvalidVote`. -/
def voteOfNonce (nonce : BlockNonce) : Except ApplyError Bool :=
  if nonce = nonceAuthVote then .ok true
  else if nonce = nonceDropVote then .ok false
  else .error .invalidVote

section Apply

/- The signer recovery `ecrecover` (secp256k1 over the seal hash) and `Header.Hash`
(Keccak-256 of the RLP of the header) are taken as functions. -/
variable (config : PosvConfig) (ecrecover : Header → Option Address) (headerHash : Header → Hash)

/-- Remove any votes on checkpoint blocks. -/
def resetAt (s : Snapshot) (number : Nat) : Snapshot :=
  if number % config.epoch = 0 then { s with votes := [], tally := fun _ => none } else s

/-- The signer of a header, or the error of `ecrecover`. -/
def recoverSigner (header : Header) : Except ApplyError Address :=
  match ecrecover header with
  | some signer => pure signer
  | none => throw ApplyError.unrecoverableSigner

/-- `snap.Recents[number] = signer`. -/
def Snapshot.markRecent (s : Snapshot) (number : Nat) (signer : Address) : Snapshot :=
  { s with recents := (number, signer) :: s.recents.filter (fun entry => entry.1 ≠ number) }

/-- Tally up the new vote from the signer: a counted vote joins the list. -/
def Snapshot.tallyVote (s : Snapshot) (signer : Address) (number : Nat) (coinbase : Address)
    (authorize : Bool) : Snapshot :=
  match s.cast coinbase authorize with
  | (true, snap) => { snap with votes := snap.votes ++ [⟨signer, number, coinbase, authorize⟩] }
  | (false, snap) => snap

/-- The body of the header loop of `apply`. The signer checks are commented out in
the source (the `FIXME` block), so any recovered signer is accepted. -/
def applyHeader (s : Snapshot) (header : Header) : Except ApplyError Snapshot := do
  let number := toUint64 header.number
  let snap := (resetAt config s number).forgetRecent number
  let signer ← recoverSigner ecrecover header
  let snap := (snap.markRecent number signer).discardVote signer header.coinbase
  let authorize ← voteOfNonce header.nonce
  pure ((snap.tallyVote signer number header.coinbase authorize).passVote number header.coinbase)

/-- The sanity check of `apply`: consecutive block numbers, in `uint64`. -/
def consecutive : List Header → Bool
  | first :: second :: rest =>
      toUint64 second.number = toUint64 (toUint64 first.number + 1) && consecutive (second :: rest)
  | _ => true

/-- `Snapshot.apply`. The copy of the Go code is the snapshot value itself. -/
def apply (s : Snapshot) (headers : List Header) : Except ApplyError Snapshot :=
  match headers with
  | [] => pure s
  | first :: rest =>
      if !consecutive (first :: rest) then throw ApplyError.invalidVotingChain
      else if toUint64 first.number ≠ toUint64 (s.number + 1) then throw ApplyError.invalidVotingChain
      else do
        let snap ← (first :: rest).foldlM (applyHeader config ecrecover) s
        pure { snap with
          number := toUint64 (snap.number + (first :: rest).length)
          hash := headerHash ((first :: rest).getLast (List.cons_ne_nil first rest)) }

end Apply

end TomoChain.Posv
