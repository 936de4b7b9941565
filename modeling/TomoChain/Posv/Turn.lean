import Mathlib
import TomoChain.Posv.Engine

set_option autoImplicit false

/-! The turn of a masternode and the difficulty of its block, from `consensus/posv/posv.go`:
`position`, `YourTurn`, `Hop` and `calcDifficulty`. A masternode is in turn when it follows
the creator of the parent in the list of masternodes; the difficulty of its block falls
by one for every masternode the turn passes over. Go's `int` is 64 bits wide; for indexes
in range every intermediate value lies between `-1` and twice the number of masternodes,
so the model computes in `Int`. -/
namespace TomoChain.Posv

/-- The loop of `position` from index `i`. -/
def positionFrom (x : Address) : List Address → Nat → Int
  | [], _ => -1
  | item :: rest, i => if item = x then i else positionFrom x rest (i + 1)

/-- `position`: the index of the first entry equal to `x`, `-1` when there is none. -/
def position (list : List Address) (x : Address) : Int := positionFrom x list 0

/-- `Hop`: how many masternodes the turn passes over from the previous creator `pre` to
the signer `cur`. -/
def hop (len pre cur : Int) : Int :=
  if pre < cur then cur - (pre + 1)
  else if pre > cur then (len - pre) + (cur - 1)
  else len - 1

/-- The test of `YourTurn`, with Go's `%`, which truncates. -/
def inTurn (len preIndex curIndex : Int) : Bool := (preIndex + 1).tmod len == curIndex

/-- What `YourTurn` returns: the number of masternodes, the indexes of the parent's
creator and of the signer, whether the signer is in turn, and the error. -/
structure TurnInfo where
  len : Int
  preIndex : Int
  curIndex : Int
  turn : Bool
  err : Option PosvError

/-- `YourTurn`, given the masternodes of the parent's epoch, whether the snapshot loads,
and the creator `whoIsCreator` recovers from the parent's seal. -/
def yourTurn (masternodes : List Address) (snapshot : Except PosvError Unit) (parentNumber : Nat)
    (creator : Except PosvError Address) (signer : Address) : TurnInfo :=
  match snapshot with
  | .error err => ⟨0, -1, -1, false, some err⟩
  | .ok () =>
    if masternodes.length = 0 then ⟨0, -1, -1, false, some (.external "Masternodes not found")⟩
    else
      -- masternode[0] has chance to create block 1
      let pre : Except PosvError Int :=
        if parentNumber ≠ 0 then (position masternodes ·) <$> creator else .ok (-1)
      match pre with
      | .error err => ⟨0, 0, 0, false, some err⟩
      | .ok preIndex =>
        let curIndex := position masternodes signer
        ⟨masternodes.length, preIndex, curIndex, inTurn masternodes.length preIndex curIndex, none⟩

/-- `calcDifficulty` on what `YourTurn` returned. -/
def calcDifficulty (turn : TurnInfo) : Int :=
  if turn.err.isSome then turn.len + turn.curIndex - turn.preIndex
  else turn.len - hop turn.len turn.preIndex turn.curIndex

/-- The steps from the previous creator forward to the signer, a whole round when the
signer created the parent. -/
def turnDistance (len pre cur : Int) : Int := (cur - pre - 1) % len + 1

/-! ## Positions -/

theorem positionFrom_range (x : Address) :
    ∀ (list : List Address) (i : Nat), positionFrom x list i = -1 ∨
      (i ≤ positionFrom x list i ∧ positionFrom x list i < i + list.length)
  | [], _ => .inl rfl
  | item :: rest, i => by
    rw [positionFrom]
    split
    · exact .inr ⟨le_refl _, by rw [List.length_cons]; omega⟩
    · rcases positionFrom_range x rest (i + 1) with absent | ⟨above, below⟩
      · exact .inl absent
      · exact .inr ⟨by omega, by rw [List.length_cons]; omega⟩

theorem positionFrom_of_mem {x : Address} :
    ∀ {list : List Address} (i : Nat), x ∈ list → 0 ≤ positionFrom x list i
  | [], _, absent => absurd absent List.not_mem_nil
  | item :: rest, i, listed => by
    rw [positionFrom]
    split
    · exact Int.natCast_nonneg i
    · next other =>
      have later : x ∈ rest := by
        rcases List.mem_cons.mp listed with same | later
        · exact absurd same.symm other
        · exact later
      exact positionFrom_of_mem (i + 1) later

/-- A position is `-1` or an index of the list. -/
theorem position_range (list : List Address) (x : Address) :
    -1 ≤ position list x ∧ position list x < list.length := by
  rcases positionFrom_range x list 0 with absent | ⟨above, below⟩
  · unfold position
    rw [absent]
    omega
  · exact ⟨by unfold position; omega, by unfold position; omega⟩

theorem position_of_mem {list : List Address} {x : Address} (listed : x ∈ list) : 0 ≤ position list x :=
  positionFrom_of_mem 0 listed

/-! ## Hop and the difficulty -/

section Hop

variable {len pre cur : Int}

/-- `Hop` is the distance from the creator to the signer less one, modulo the number of
masternodes: the three cases of the switch are the three ranges of `cur - pre - 1`. -/
theorem hop_eq_emod (preRange : -1 ≤ pre ∧ pre < len) (curRange : 0 ≤ cur ∧ cur < len) :
    hop len pre cur = (cur - pre - 1) % len := by
  unfold hop
  split
  · next ahead => rw [Int.emod_eq_of_lt (by omega) (by omega)]; omega
  · split
    · next behind _ =>
      -- the turn wraps around the end of the list
      rw [Int.emod_eq_add_self_emod, Int.emod_eq_of_lt (by omega) (by omega)]
      omega
    · next notAhead notBehind =>
      have same : pre = cur := by omega
      rw [same, Int.emod_eq_add_self_emod, Int.emod_eq_of_lt (by omega) (by omega)]
      omega

theorem hop_range (preRange : -1 ≤ pre ∧ pre < len) (curRange : 0 ≤ cur ∧ cur < len) :
    0 ≤ hop len pre cur ∧ hop len pre cur < len := by
  rw [hop_eq_emod preRange curRange]
  exact ⟨Int.emod_nonneg _ (by omega), Int.emod_lt_of_pos _ (by omega)⟩

/-- The signer is in turn exactly when the turn passes over nobody. -/
theorem inTurn_iff_hop (preRange : -1 ≤ pre ∧ pre < len) (curRange : 0 ≤ cur ∧ cur < len) :
    inTurn len pre cur = true ↔ hop len pre cur = 0 := by
  have next : (pre + 1).tmod len = if pre + 1 = len then 0 else pre + 1 := by
    rw [Int.tmod_eq_emod_of_nonneg (by omega)]
    split
    · next last => rw [last, Int.emod_self]
    · exact Int.emod_eq_of_lt (by omega) (by omega)
  unfold inTurn hop
  rw [beq_iff_eq, next]
  split_ifs <;> omega

/-- `calcDifficulty` on `YourTurn` without an error. -/
theorem calcDifficulty_turn (len pre cur : Int) :
    calcDifficulty ⟨len, pre, cur, inTurn len pre cur, none⟩ = len - hop len pre cur := rfl

end Hop

/-- For every previous creator `pre ∈ [-1, len)` and signer `cur ∈ [0, len)`, so that
there are `len ≥ 1` masternodes: `Hop` is `(cur - pre - 1) mod len`, the difficulty
`calcDifficulty` computes from what `YourTurn` returns lies in `[1, len]`, falls strictly
as the distance from the creator to the signer grows, and is `len` exactly when
`YourTurn` reports the signer in turn. -/
theorem turn_difficulty (len pre cur : Int) (preRange : -1 ≤ pre ∧ pre < len) (curRange : 0 ≤ cur ∧ cur < len) :
    hop len pre cur = (cur - pre - 1) % len ∧
      1 ≤ calcDifficulty ⟨len, pre, cur, inTurn len pre cur, none⟩ ∧
      calcDifficulty ⟨len, pre, cur, inTurn len pre cur, none⟩ ≤ len ∧
      (∀ cur', 0 ≤ cur' → cur' < len → turnDistance len pre cur < turnDistance len pre cur' →
        calcDifficulty ⟨len, pre, cur', inTurn len pre cur', none⟩ <
          calcDifficulty ⟨len, pre, cur, inTurn len pre cur, none⟩) ∧
      (calcDifficulty ⟨len, pre, cur, inTurn len pre cur, none⟩ = len ↔ inTurn len pre cur = true) := by
  have range := hop_range preRange curRange
  rw [calcDifficulty_turn]
  refine ⟨hop_eq_emod preRange curRange, by omega, by omega, fun cur' above below farther => ?_, ?_⟩
  · -- the difficulty is `len + 1` less the distance
    rw [calcDifficulty_turn, hop_eq_emod preRange curRange, hop_eq_emod preRange ⟨above, below⟩]
    unfold turnDistance at farther
    omega
  · rw [inTurn_iff_hop preRange curRange]
    omega

/-- The block after the genesis block: the first masternode is in turn, and a signer
three places on in a list of five passes over two. -/
theorem turn_difficulty_after_genesis :
    ((-1 : Int) ≤ -1 ∧ (-1 : Int) < 5) ∧ ((0 : Int) ≤ 2 ∧ (2 : Int) < 5) ∧
      hop 5 (-1) 2 = (2 - -1 - 1) % 5 ∧ calcDifficulty ⟨5, -1, 2, inTurn 5 (-1) 2, none⟩ = 3 :=
  ⟨by decide, by decide, (turn_difficulty 5 (-1) 2 (by decide) (by decide)).1, by decide⟩

end TomoChain.Posv
