import Mathlib
import TomoChain.Posv.Snapshot
import TomoChain.Lib.Except

set_option autoImplicit false

/-! The vote tally of a snapshot is a cache of its vote list. `TallyInv` states
that, together with the one-vote-per-signer-and-account rule and the validity of
every pending vote; `apply_keeps_tally` proves that every chain of headers that
`apply` accepts keeps it. Each phase of a header gets its own lemma, stated on the
vote list and the tally only where the signers do not move. -/
namespace TomoChain.Posv

open Snapshot

/-- The number of votes on `a`. -/
def countOn (votes : List Vote) (a : Address) : Nat :=
  votes.countP (fun vote => vote.address = a)

/-- The tally holds exactly the accounts with a vote, their vote count, and the one
direction of all votes on them. -/
structure Counted (votes : List Vote) (tally : Address → Option Tally) : Prop where
  tallied : ∀ a, (tally a).isSome ↔ ∃ vote ∈ votes, vote.address = a
  counted : ∀ a t, tally a = some t → t.votes = countOn votes a
  directed : ∀ a t, tally a = some t → ∀ vote ∈ votes, vote.address = a → vote.authorize = t.authorize

/-- The invariant `apply` keeps: a counted tally, one vote per (signer, account)
pair, and every vote valid for the current membership of its account. -/
structure TallyInv (s : Snapshot) : Prop where
  counted : Counted s.votes s.tally
  single : (s.votes.map fun vote => (vote.signer, vote.address)).Nodup
  valid : ∀ vote ∈ s.votes, vote.authorize = decide (vote.address ∉ s.signers)

/-! ## What each operation touches -/

/-- The tally `uncast` leaves behind. -/
def uncastTally (tally : Address → Option Tally) (address : Address) (authorize : Bool) :
    Address → Option Tally :=
  match tally address with
  | none => tally
  | some t =>
      if t.authorize ≠ authorize then tally
      else if t.votes > 1 then Function.update tally address (some { t with votes := t.votes - 1 })
      else Function.update tally address none

theorem uncast_snd (s : Snapshot) (address : Address) (authorize : Bool) :
    (s.uncast address authorize).2 = { s with tally := uncastTally s.tally address authorize } := by
  unfold uncast uncastTally
  cases s.tally address with
  | none => rfl
  | some t =>
      by_cases same : t.authorize ≠ authorize
      · simp only [if_pos same]
      · by_cases many : t.votes > 1 <;> simp only [if_neg same, many, ↓reduceIte]

/-- The tally `cast` leaves behind, when the vote is valid. -/
def castTally (tally : Address → Option Tally) (address : Address) (authorize : Bool) :
    Address → Option Tally :=
  match tally address with
  | some old => Function.update tally address (some { old with votes := old.votes + 1 })
  | none => Function.update tally address (some ⟨authorize, 1⟩)

theorem cast_of_valid (s : Snapshot) (address : Address) (authorize : Bool)
    (valid : s.validVote address authorize = true) :
    s.cast address authorize = (true, { s with tally := castTally s.tally address authorize }) := by
  unfold Snapshot.cast castTally
  simp only [valid, Bool.not_true, Bool.false_eq_true, ↓reduceIte]
  cases s.tally address <;> rfl

theorem cast_of_invalid (s : Snapshot) (address : Address) (authorize : Bool)
    (invalid : s.validVote address authorize = false) :
    s.cast address authorize = (false, s) := by
  simp only [Snapshot.cast, invalid, Bool.not_false, ↓reduceIte]

@[simp] theorem forgetRecent_votes (s : Snapshot) (number : Nat) :
    (s.forgetRecent number).votes = s.votes := by
  unfold forgetRecent; dsimp only; split <;> rfl

@[simp] theorem forgetRecent_tally (s : Snapshot) (number : Nat) :
    (s.forgetRecent number).tally = s.tally := by
  unfold forgetRecent; dsimp only; split <;> rfl

@[simp] theorem forgetRecent_signers (s : Snapshot) (number : Nat) :
    (s.forgetRecent number).signers = s.signers := by
  unfold forgetRecent; dsimp only; split <;> rfl

/-- A vote is valid exactly in the direction that flips the account's membership. -/
theorem validVote_iff (s : Snapshot) (address : Address) (authorize : Bool) :
    s.validVote address authorize = true ↔ authorize = decide (address ∉ s.signers) := by
  unfold validVote
  by_cases member : address ∈ s.signers <;> cases authorize <;> simp [member]

/-! ## The tally follows the vote list -/

theorem countOn_cons (vote : Vote) (votes : List Vote) (a : Address) :
    countOn (vote :: votes) a = countOn votes a + if vote.address = a then 1 else 0 := by
  simp [countOn, List.countP_cons]

theorem countOn_pos_iff (votes : List Vote) (a : Address) :
    0 < countOn votes a ↔ ∃ vote ∈ votes, vote.address = a := by
  simp [countOn]

theorem Counted.nil : Counted [] (fun _ => none) where
  tallied _ := by simp
  counted _ _ absent := by cases absent
  directed _ _ absent := by cases absent

/-- The tally depends on the votes only as a multiset. -/
theorem Counted.perm {votes votes' : List Vote} {tally : Address → Option Tally}
    (counted : Counted votes tally) (perm : votes.Perm votes') : Counted votes' tally where
  tallied a := by
    rw [counted.tallied a]
    exact ⟨fun ⟨vote, mem, at_a⟩ => ⟨vote, perm.mem_iff.mp mem, at_a⟩,
      fun ⟨vote, mem, at_a⟩ => ⟨vote, perm.mem_iff.mpr mem, at_a⟩⟩
  counted a t present := by
    rw [counted.counted a t present]
    exact perm.countP_eq _
  directed a t present vote mem := counted.directed a t present vote (perm.mem_iff.mpr mem)

theorem uncastTally_of_ne (tally : Address → Option Tally) {address a : Address}
    (authorize : Bool) (other : a ≠ address) :
    uncastTally tally address authorize a = tally a := by
  unfold uncastTally
  cases tally address with
  | none => rfl
  | some t =>
      dsimp only
      split
      · rfl
      · split <;> exact Function.update_of_ne other _ _

theorem uncastTally_self {tally : Address → Option Tally} {address : Address} {t : Tally}
    (present : tally address = some t) :
    uncastTally tally address t.authorize address =
      if t.votes > 1 then some { t with votes := t.votes - 1 } else none := by
  simp only [uncastTally, present, ne_eq, not_true_eq_false, ↓reduceIte]
  split <;> simp

/-- Uncasting the head vote and dropping it keeps the tally counted. -/
theorem Counted.uncast_cons {vote : Vote} {rest : List Vote} {tally : Address → Option Tally}
    (counted : Counted (vote :: rest) tally) :
    Counted rest (uncastTally tally vote.address vote.authorize) := by
  obtain ⟨t, present⟩ : ∃ t, tally vote.address = some t :=
    Option.isSome_iff_exists.mp ((counted.tallied _).mpr ⟨vote, List.mem_cons_self, rfl⟩)
  have same : t.authorize = vote.authorize :=
    (counted.directed _ t present vote List.mem_cons_self rfl).symm
  have count : t.votes = countOn rest vote.address + 1 := by
    rw [counted.counted _ t present, countOn_cons]
    simp
  have here := uncastTally_self present
  rw [same] at here
  -- away from the vote's account nothing changes but the list
  have away : ∀ a, a ≠ vote.address → countOn (vote :: rest) a = countOn rest a ∧
      ((∃ w ∈ vote :: rest, w.address = a) ↔ ∃ w ∈ rest, w.address = a) := by
    intro a other
    refine ⟨by simp [countOn_cons, Ne.symm other], ?_⟩
    simp only [List.mem_cons, exists_eq_or_imp]
    exact ⟨fun found => found.resolve_left other.symm, Or.inr⟩
  constructor
  · intro a
    by_cases at_vote : a = vote.address
    · subst at_vote
      rw [here, ← countOn_pos_iff]
      split <;> simp <;> omega
    · rw [uncastTally_of_ne _ _ at_vote, counted.tallied a, (away a at_vote).2]
  · intro a u present'
    by_cases at_vote : a = vote.address
    · subst at_vote
      rw [here] at present'
      split at present'
      · cases present'
        simp only
        omega
      · cases present'
    · rw [uncastTally_of_ne _ _ at_vote] at present'
      rw [counted.counted a u present', (away a at_vote).1]
  · intro a u present' w mem at_a
    have earlier := fun t' (old : tally a = some t') =>
      counted.directed a t' old w (List.mem_cons_of_mem _ mem) at_a
    by_cases at_vote : a = vote.address
    · subst at_vote
      rw [here] at present'
      split at present'
      · cases present'
        exact (earlier t present).trans same
      · cases present'
    · rw [uncastTally_of_ne _ _ at_vote] at present'
      exact earlier u present'

/-- Counting a vote whose direction agrees with every vote already on its account. -/
theorem Counted.cast_append {votes : List Vote} {tally : Address → Option Tally}
    (counted : Counted votes tally) (vote : Vote)
    (agree : ∀ w ∈ votes, w.address = vote.address → w.authorize = vote.authorize) :
    Counted (votes ++ [vote]) (castTally tally vote.address vote.authorize) := by
  have countAppend : ∀ a, countOn (votes ++ [vote]) a = countOn votes a + if vote.address = a then 1 else 0 := by
    intro a
    simp [countOn, List.countP_append]
  -- the new tally entry on the vote's account
  have here : castTally tally vote.address vote.authorize vote.address =
      some ⟨vote.authorize, countOn votes vote.address + 1⟩ := by
    unfold castTally
    cases present : tally vote.address with
    | none =>
        have none_on : countOn votes vote.address = 0 := by
          by_contra nonzero
          obtain ⟨w, mem, at_a⟩ := (countOn_pos_iff _ _).mp (Nat.pos_of_ne_zero nonzero)
          have := (counted.tallied vote.address).mpr ⟨w, mem, at_a⟩
          simp [present] at this
        simp [none_on]
    | some old =>
        obtain ⟨w, mem, at_a⟩ := (counted.tallied vote.address).mp (by simp [present])
        have direction : old.authorize = vote.authorize :=
          (counted.directed _ old present w mem at_a).symm.trans (agree w mem at_a)
        simp [← direction, counted.counted _ old present]
  have away : ∀ a, a ≠ vote.address → castTally tally vote.address vote.authorize a = tally a := by
    intro a other
    unfold castTally
    cases tally vote.address <;> exact Function.update_of_ne other _ _
  constructor
  · intro a
    by_cases at_vote : a = vote.address
    · subst at_vote
      simp [here]
    · rw [away a at_vote, counted.tallied a]
      simp [Ne.symm at_vote]
  · intro a t present
    by_cases at_vote : a = vote.address
    · subst at_vote
      rw [here] at present
      cases present
      simp [countAppend]
    · rw [away a at_vote] at present
      rw [counted.counted a t present, countAppend]
      simp [Ne.symm at_vote]
  · intro a t present w mem at_a
    simp only [List.mem_append, List.mem_singleton] at mem
    by_cases at_vote : a = vote.address
    · subst at_vote
      rw [here] at present
      cases present
      rcases mem with old | rfl
      · exact agree w old at_a
      · rfl
    · rw [away a at_vote] at present
      rcases mem with old | rfl
      · exact counted.directed a t present w old at_a
      · exact absurd at_a.symm at_vote

/-- Forgetting every vote on one account and its tally entry. -/
theorem Counted.forget_account {votes : List Vote} {tally : Address → Option Tally}
    (counted : Counted votes tally) (coinbase : Address) :
    Counted (votes.filter fun vote => vote.address ≠ coinbase) (Function.update tally coinbase none) := by
  have countFilter : ∀ a, a ≠ coinbase →
      countOn (votes.filter fun vote => vote.address ≠ coinbase) a = countOn votes a := by
    intro a other
    unfold countOn
    rw [List.countP_filter]
    congr 1
    funext vote
    by_cases at_a : vote.address = a
    · simp [at_a, other]
    · simp [at_a]
  constructor
  · intro a
    by_cases at_coinbase : a = coinbase
    · subst at_coinbase
      simp
    · rw [Function.update_of_ne at_coinbase, counted.tallied a]
      simp only [List.mem_filter, decide_eq_true_eq]
      exact ⟨fun ⟨w, mem, at_a⟩ => ⟨w, ⟨mem, at_a ▸ at_coinbase⟩, at_a⟩,
        fun ⟨w, ⟨mem, _⟩, at_a⟩ => ⟨w, mem, at_a⟩⟩
  · intro a t present
    by_cases at_coinbase : a = coinbase
    · subst at_coinbase
      simp at present
    · rw [Function.update_of_ne at_coinbase] at present
      rw [counted.counted a t present, countFilter a at_coinbase]
  · intro a t present w mem at_a
    by_cases at_coinbase : a = coinbase
    · subst at_coinbase
      simp at present
    · rw [Function.update_of_ne at_coinbase] at present
      exact counted.directed a t present w (List.mem_of_mem_filter mem) at_a

@[simp] theorem uncast_votes (s : Snapshot) (address : Address) (authorize : Bool) :
    (s.uncast address authorize).2.votes = s.votes := by
  rw [uncast_snd]

@[simp] theorem uncast_signers (s : Snapshot) (address : Address) (authorize : Bool) :
    (s.uncast address authorize).2.signers = s.signers := by
  rw [uncast_snd]

@[simp] theorem uncast_tally (s : Snapshot) (address : Address) (authorize : Bool) :
    (s.uncast address authorize).2.tally = uncastTally s.tally address authorize := by
  rw [uncast_snd]

@[simp] theorem uncastVotesBy_votes (coinbase : Address) (votes : List Vote) (s : Snapshot) :
    (uncastVotesBy coinbase votes s).votes = s.votes := by
  induction votes generalizing s with
  | nil => rfl
  | cons vote rest ih =>
      simp only [uncastVotesBy, ih]
      split <;> simp

@[simp] theorem uncastVotesBy_signers (coinbase : Address) (votes : List Vote) (s : Snapshot) :
    (uncastVotesBy coinbase votes s).signers = s.signers := by
  induction votes generalizing s with
  | nil => rfl
  | cons vote rest ih =>
      simp only [uncastVotesBy, ih]
      split <;> simp

/-- The deauthorisation loop, with the votes already visited and kept in front:
uncasting the votes of `coinbase` as they come keeps the tally counted for the
votes that stay. -/
theorem Counted.uncastVotesBy {coinbase : Address} (todo : List Vote) :
    ∀ (kept : List Vote) (s : Snapshot), Counted (kept ++ todo) s.tally →
      Counted (kept ++ todo.filter fun vote => vote.signer ≠ coinbase)
        (Snapshot.uncastVotesBy coinbase todo s).tally := by
  induction todo with
  | nil => intro kept s counted; simpa [Snapshot.uncastVotesBy] using counted
  | cons vote rest ih =>
      intro kept s counted
      by_cases by_coinbase : vote.signer = coinbase
      · have moved : Counted (vote :: (kept ++ rest)) s.tally := counted.perm List.perm_middle
        have dropped := moved.uncast_cons
        rw [← uncast_tally s] at dropped
        simpa [Snapshot.uncastVotesBy, by_coinbase, List.filter_cons] using
          ih kept (s.uncast vote.address vote.authorize).2 dropped
      · have regrouped : Counted ((kept ++ [vote]) ++ rest) s.tally := by simpa using counted
        simpa [Snapshot.uncastVotesBy, by_coinbase, List.filter_cons] using
          ih (kept ++ [vote]) s regrouped

theorem Counted.discardVotesBy {s : Snapshot} (counted : Counted s.votes s.tally) (coinbase : Address) :
    Counted (s.discardVotesBy coinbase).votes (s.discardVotesBy coinbase).tally := by
  simpa [Snapshot.discardVotesBy] using @Counted.uncastVotesBy coinbase s.votes [] s counted

/-- What the first vote loop does: nothing when the signer has no vote on the
coinbase, else it uncasts and deletes the first such vote. -/
theorem discardVote_cases (s : Snapshot) (signer coinbase : Address) :
    ((∀ vote ∈ s.votes, sameVote signer coinbase vote = false) ∧ s.discardVote signer coinbase = s) ∨
      ∃ vote front back, s.votes = front ++ vote :: back ∧ sameVote signer coinbase vote = true ∧
        (∀ other ∈ front, sameVote signer coinbase other = false) ∧
        s.discardVote signer coinbase =
          { s with votes := front ++ back, tally := uncastTally s.tally vote.address vote.authorize } := by
  unfold discardVote
  cases found : s.votes.find? (sameVote signer coinbase) with
  | none =>
      left
      exact ⟨by simpa using List.find?_eq_none.mp found, rfl⟩
  | some vote =>
      right
      obtain ⟨matches_vote, front, back, split_votes, before⟩ := List.find?_eq_some_iff_append.mp found
      have erased : s.votes.eraseP (sameVote signer coinbase) = front ++ back := by
        rw [split_votes, List.eraseP_append_right _ (fun other mem => by simpa using before other mem)]
        simp [matches_vote]
      refine ⟨vote, front, back, split_votes, matches_vote, fun other mem => by simpa using before other mem, ?_⟩
      simp only [uncast_snd, erased]

theorem TallyInv.discardVote {s : Snapshot} (inv : TallyInv s) (signer coinbase : Address) :
    TallyInv (s.discardVote signer coinbase) ∧
      ∀ vote ∈ (s.discardVote signer coinbase).votes, sameVote signer coinbase vote = false := by
  rcases discardVote_cases s signer coinbase with ⟨none_left, unchanged⟩ | ⟨vote, front, back, split_votes, matches_vote, before, result⟩
  · rw [unchanged]
    exact ⟨inv, none_left⟩
  · rw [result]
    have sub : (front ++ back).Sublist s.votes := by
      rw [split_votes]
      exact List.Sublist.append_left (List.sublist_cons_self vote back) front
    have moved : Counted (vote :: (front ++ back)) s.tally := by
      have := inv.counted
      rw [split_votes] at this
      exact this.perm List.perm_middle
    refine ⟨⟨moved.uncast_cons, inv.single.sublist (sub.map _), ?_⟩, ?_⟩
    · intro other mem
      exact inv.valid other (sub.subset mem)
    · intro other mem
      rcases List.mem_append.mp mem with early | late
      · exact before other early
      · -- a second vote on the same pair would repeat it in the nodup pair list
        by_contra also
        have pairs := inv.single
        rw [split_votes] at pairs
        simp only [sameVote, Bool.and_eq_true, decide_eq_true_eq, Bool.not_eq_false] at also matches_vote
        have twice : (vote.signer, vote.address) ∈ (back.map fun v => (v.signer, v.address)) :=
          List.mem_map.mpr ⟨other, late, by rw [also.1, also.2, matches_vote.1, matches_vote.2]⟩
        simp only [List.map_append, List.map_cons] at pairs
        exact (List.nodup_cons.mp (List.nodup_append.mp pairs).2.1).1 twice

/-- The invariant reads only the signers, the votes and the tally. -/
theorem TallyInv.congr {s s' : Snapshot} (inv : TallyInv s) (signers : s'.signers = s.signers)
    (votes : s'.votes = s.votes) (tally : s'.tally = s.tally) : TallyInv s' := by
  exact ⟨votes ▸ tally ▸ inv.counted, votes ▸ inv.single, by rw [signers, votes]; exact inv.valid⟩

theorem TallyInv.resetAt {s : Snapshot} (config : PosvConfig) (inv : TallyInv s) (number : Nat) :
    TallyInv (resetAt config s number) := by
  unfold Posv.resetAt
  split
  · exact ⟨Counted.nil, List.nodup_nil, fun _ absent => by cases absent⟩
  · exact inv

theorem TallyInv.forgetRecent {s : Snapshot} (inv : TallyInv s) (number : Nat) :
    TallyInv (s.forgetRecent number) :=
  inv.congr (forgetRecent_signers s number) (forgetRecent_votes s number) (forgetRecent_tally s number)

theorem TallyInv.markRecent {s : Snapshot} (inv : TallyInv s) (number : Nat) (signer : Address) :
    TallyInv (s.markRecent number signer) :=
  inv.congr rfl rfl rfl

/-- Casting a vote keeps the invariant once the signer's old vote on the account
is gone. -/
theorem TallyInv.tallyVote {s : Snapshot} (inv : TallyInv s) (signer : Address) (number : Nat)
    (coinbase : Address) (authorize : Bool)
    (fresh : ∀ vote ∈ s.votes, sameVote signer coinbase vote = false) :
    TallyInv (s.tallyVote signer number coinbase authorize) := by
  unfold Snapshot.tallyVote
  cases valid : s.validVote coinbase authorize with
  | false =>
      rw [cast_of_invalid s coinbase authorize valid]
      exact inv
  | true =>
      rw [cast_of_valid s coinbase authorize valid]
      let vote : Vote := ⟨signer, number, coinbase, authorize⟩
      have direction := (validVote_iff s coinbase authorize).mp valid
      have agree : ∀ w ∈ s.votes, w.address = vote.address → w.authorize = vote.authorize := by
        intro w mem at_coinbase
        have old_valid := inv.valid w mem
        rw [at_coinbase] at old_valid
        exact old_valid.trans direction.symm
      have new_pair : (signer, coinbase) ∉ s.votes.map fun w => (w.signer, w.address) := by
        intro mem
        obtain ⟨w, w_mem, same_pair⟩ := List.mem_map.mp mem
        have := fresh w w_mem
        simp only [Prod.mk.injEq] at same_pair
        simp [sameVote, same_pair.1, same_pair.2] at this
      refine ⟨inv.counted.cast_append vote agree, ?_, ?_⟩
      · rw [List.map_append, List.nodup_append]
        refine ⟨inv.single, List.nodup_singleton _, ?_⟩
        intro old old_mem new new_mem same
        rw [List.map_singleton, List.mem_singleton] at new_mem
        subst new_mem
        exact new_pair (same ▸ old_mem)
      · intro w mem
        rcases List.mem_append.mp mem with old | new
        · exact inv.valid w old
        · rw [List.mem_singleton.mp new]
          exact direction

@[simp] theorem discardVotesBy_votes (s : Snapshot) (coinbase : Address) :
    (s.discardVotesBy coinbase).votes = s.votes.filter fun vote => vote.signer ≠ coinbase := rfl

@[simp] theorem discardVotesBy_signers (s : Snapshot) (coinbase : Address) :
    (s.discardVotesBy coinbase).signers = s.signers := by
  simp [Snapshot.discardVotesBy]

/-- Changing the membership of `coinbase` only leaves every vote on another account
as valid as it was. -/
theorem direction_away {s s' : Snapshot} {coinbase address : Address}
    (members : ∀ b, b ≠ coinbase → (b ∈ s'.signers ↔ b ∈ s.signers)) (other : address ≠ coinbase) :
    decide (address ∉ s'.signers) = decide (address ∉ s.signers) := by
  simp only [members address other]

/-- The end of a header keeps the invariant: a passed vote flips one membership and
every vote on that account goes with it. -/
theorem TallyInv.passVote {s : Snapshot} (inv : TallyInv s) (number : Nat) (coinbase : Address) :
    TallyInv (s.passVote number coinbase) := by
  unfold Snapshot.passVote
  dsimp only
  split
  · split
    · -- an authorisation adds the coinbase
      refine ⟨inv.counted.forget_account coinbase, inv.single.sublist ((List.filter_sublist).map _), ?_⟩
      intro vote mem
      have ⟨old, other⟩ := List.mem_filter.mp mem
      have other : vote.address ≠ coinbase := by simpa using other
      rw [direction_away (s := s) (fun b ne => by simp [ne]) other]
      exact inv.valid vote old
    · -- a deauthorisation removes the coinbase and every vote it cast
      let erased : Snapshot := { s with signers := s.signers.erase coinbase }
      have dropped := Counted.discardVotesBy
        (show Counted (erased.forgetRecent number).votes (erased.forgetRecent number).tally by
          simpa using inv.counted) coinbase
      refine ⟨dropped.forget_account coinbase, ?_, ?_⟩
      · refine inv.single.sublist (List.Sublist.map _ ?_)
        simp only [discardVotesBy_votes, forgetRecent_votes]
        exact List.filter_sublist.trans List.filter_sublist
      · intro vote mem
        simp only [discardVotesBy_votes, forgetRecent_votes, List.mem_filter] at mem
        have other : vote.address ≠ coinbase := by simpa using mem.2
        rw [direction_away (s := s) (fun b ne => by simp [ne]) other]
        exact inv.valid vote mem.1.1
  · exact inv

/-! ## Whole chains of headers -/

/-- The genesis snapshot satisfies the invariant. -/
theorem newSnapshot_tallyInv (number : Nat) (hash : Hash) (signers : List Address) :
    TallyInv (newSnapshot number hash signers) :=
  ⟨Counted.nil, List.nodup_nil, fun _ absent => by cases absent⟩


section Apply

variable (config : PosvConfig) (ecrecover : Header → Option Address) (headerHash : Header → Hash)

/-- One header of `apply` keeps the invariant, phase by phase. -/
theorem applyHeader_keeps_tally {s s' : Snapshot} {header : Header} (inv : TallyInv s)
    (accepted : applyHeader config ecrecover s header = .ok s') : TallyInv s' := by
  unfold applyHeader at accepted
  obtain ⟨signer, -, rest⟩ := Lib.bind_eq_ok accepted
  obtain ⟨authorize, -, settled⟩ := Lib.bind_eq_ok rest
  cases Lib.ok_injective settled
  let number := toUint64 header.number
  have prepared := (((inv.resetAt config number).forgetRecent number).markRecent number signer).discardVote
    signer header.coinbase
  exact (prepared.1.tallyVote signer number header.coinbase authorize prepared.2).passVote number header.coinbase

/-- The header loop of `apply`, by induction over the headers. -/
theorem foldlM_applyHeader_keeps_tally (headers : List Header) :
    ∀ (s s' : Snapshot), TallyInv s →
      headers.foldlM (applyHeader config ecrecover) s = .ok s' → TallyInv s' := by
  induction headers with
  | nil =>
      intro s s' inv accepted
      cases Lib.ok_injective accepted
      exact inv
  | cons header rest ih =>
      intro s s' inv accepted
      rw [List.foldlM_cons] at accepted
      obtain ⟨next, step, later⟩ := Lib.bind_eq_ok accepted
      exact ih next s' (applyHeader_keeps_tally config ecrecover inv step) later

/-- Every chain of headers that `apply` accepts keeps the tally a cache of the
vote list: each tally entry exists exactly for the accounts with votes, counts
them and has their one direction; each signer has at most one vote per account;
and every pending vote would flip its account's membership. The input snapshot is
a value, so `apply` leaves it as it was (the Go `copy` is what makes this so). -/
theorem apply_keeps_tally (s s' : Snapshot) (headers : List Header) (inv : TallyInv s)
    (accepted : apply config ecrecover headerHash s headers = .ok s') : TallyInv s' := by
  unfold apply at accepted
  split at accepted
  · cases Lib.ok_injective accepted
    exact inv
  · split at accepted
    · cases accepted
    · split at accepted
      · cases accepted
      · obtain ⟨snap, folded, renumbered⟩ := Lib.bind_eq_ok accepted
        cases Lib.ok_injective renumbered
        exact (foldlM_applyHeader_keeps_tally config ecrecover _ s snap inv folded).congr rfl rfl rfl

end Apply

/-- A two-signer genesis, an epoch of 900 blocks, and block 1 voting to add account 3. -/
def witnessConfig : PosvConfig := ⟨2, 900, 5, Nat.succ_pos 899⟩

def witnessVoteHeader : Header :=
  { parentHash := 0, uncleHash := 0, coinbase := 3, difficulty := 0, number := 1, time := 0,
    extra := [], mixDigest := 0, nonce := nonceAuthVote, validators := [], validator := [],
    penalties := [] }

theorem apply_keeps_tally_genesis :
    ∃ s', apply witnessConfig (fun _ => some 1) (fun _ => 0) (newSnapshot 0 0 [1, 2])
      [witnessVoteHeader] = .ok s' ∧ TallyInv s' :=
  ⟨_, rfl, apply_keeps_tally witnessConfig (fun _ => some 1) (fun _ => 0) _ _ [witnessVoteHeader]
    (newSnapshot_tallyInv 0 0 [1, 2]) rfl⟩

end TomoChain.Posv
