import Mathlib
import TomoChain.Posv.Engine
import TomoChain.Lib.Decimal

set_option autoImplicit false

/-! The M1 → M2 assignment of a checkpoint: `contracts.GenM2FromRandomize` draws the
list of M2 indices, `BuildValidatorFromM2` packs it into the header's `Validators`
bytes, and `posv.ExtractValidatorsFromBytes` and `getM1M2` read it back and pair each
masternode (its M1) with the masternode that validates its blocks (its M2).

The shuffle is Sattolo's: at index `i` it swaps in an entry drawn strictly below `i`
and retires index `i`, so no index keeps its own value. The draws of `math/rand` are
a `RandSource`, of which only the range of `Intn` is known. -/
namespace TomoChain.Posv

/-- `common.MaxMasternodes`. -/
def maxMasternodes : Nat := 150

/-- `common.TIPRandomize`. -/
def tipRandomize : Nat := 3464000

/-- `ChainConfig.IsTIPRandomize`. -/
def isTIPRandomize (number : Nat) : Bool := decide (tipRandomize ≤ number)

/-- `math/rand`'s global source: `rand.Seed` sets its state and `rand.Intn(k)` returns
a value in `[0, k)` and advances it. -/
structure RandSource (σ : Type) where
  seed : Int → σ
  intn : σ → Nat → Nat × σ
  intn_lt : ∀ s k, 0 < k → (intn s k).1 < k

/-- `NewSlice(start, end, step)`. -/
def newSlice (start stop step : Int) : List Int :=
  (List.range (stop - start).toNat).map fun (i : Nat) => start + i * step

/-- `total += j` on `int64`, which wraps. -/
def addInt64 (total j : Int) : Int := toInt64 ((total + j) % 2 ^ 64).toNat

section Shuffle

variable {σ : Type} (src : RandSource σ)

/-- The loop of `GenM2FromRandomize` with `i + 1` iterations left, at index `i`: draw
below `len(blockValidator) - 1` (at least 1), swap the drawn entry with entry `i`,
write it to `randIndexs[i]` and cut entry `i` off `blockValidator`. -/
def genM2Loop : Nat → σ → List Int → List Int → List Int
  | 0, _, _, randIndexs => randIndexs
  | i + 1, s, blockValidator, randIndexs =>
    let blockLength := blockValidator.length - 1
    let blockLength := if blockLength ≤ 1 then 1 else blockLength
    let (randomIndex, s) := src.intn s blockLength
    let temp := blockValidator.getD randomIndex 0
    let blockValidator := blockValidator.set randomIndex (blockValidator.getD i 0)
    let blockValidator := blockValidator.set i temp
    let blockValidator := blockValidator.take i ++ blockValidator.drop (i + 1)
    genM2Loop i s blockValidator (randIndexs.set i temp)

/-- `contracts.GenM2FromRandomize`: the source seeded with the `int64` total of the
randomizes, then the loop from the last index down. -/
def RandSource.genM2FromRandomize (randomizes : List Int) (lenSigners : Nat) : List Int :=
  let blockValidator := newSlice 0 lenSigners 1
  let randIndexs := List.replicate lenSigners 0
  let total := randomizes.foldl addInt64 0
  genM2Loop src blockValidator.length (src.seed total) blockValidator randIndexs

/-- The loop invariant of the shuffle of `n` indices with `k` entries left in
`blockValidator`: the entries left and the written tail of `randIndexs` are the
indices; an entry left is its own position's index or at least `k`, so a draw below
the last position never finds the last index; and no written position holds its own
index. -/
structure ShuffleInv (n k : Nat) (blockValidator randIndexs : List Int) : Prop where
  left : k ≤ n
  length : blockValidator.length = k
  out_length : randIndexs.length = n
  perm : (blockValidator ++ randIndexs.drop k).Perm ((List.range n).map Int.ofNat)
  ahead : ∀ p (h : p < blockValidator.length), blockValidator[p] = p ∨ k ≤ blockValidator[p]
  last : k = 1 → blockValidator ≠ [0]
  placed : ∀ p (h : p < randIndexs.length), k ≤ p → randIndexs[p] ≠ p

theorem newSlice_indices (n : Nat) : newSlice 0 n 1 = (List.range n).map Int.ofNat := by
  rw [newSlice, show ((n : Int) - 0).toNat = n by omega]
  apply List.map_congr_left
  intro i _
  simp

theorem getD_of_lt {α : Type} {l : List α} {i : Nat} (d : α) (h : i < l.length) :
    l.getD i d = l[i] := by
  rw [List.getD_eq_getElem?_getD, List.getElem?_eq_getElem h, Option.getD_some]

theorem shuffleInv_start {n : Nat} (two : 2 ≤ n) :
    ShuffleInv n n ((List.range n).map Int.ofNat) (List.replicate n 0) where
  left := Nat.le_refl n
  length := by simp
  out_length := by simp
  perm := by simp
  ahead p h := by simp
  last one := by omega
  placed p h above := by simp at h; omega

/-- The entry drawn at index `i` and the list it leaves: the swap followed by the cut
is the list with entry `i` moved into the drawn position. -/
theorem swap_cut {bv : List Int} {i j : Nat} (len : bv.length = i + 1) (drawn : j ≤ i) :
    let bv2 := (bv.set j (bv.getD i 0)).set i (bv.getD j 0)
    (bv2.take i ++ bv2.drop (i + 1)) ++ [bv.getD j 0] = bv2 ∧ bv2.Perm bv := by
  intro bv2
  have hi : i < bv.length := by omega
  have hj : j < bv.length := by omega
  have swapped : bv2.Perm bv := by
    simp only [bv2, getD_of_lt 0 hi, getD_of_lt 0 hj]
    exact List.set_set_perm hj hi
  refine ⟨?_, swapped⟩
  have len2 : bv2.length = i + 1 := by simp [bv2, len]
  have lastEntry : bv2.drop i = [bv.getD j 0] := by
    rw [List.drop_eq_getElem_cons (by omega), List.drop_eq_nil_of_le (by omega)]
    simp [bv2]
  rw [List.drop_eq_nil_of_le (by omega), List.append_nil, ← lastEntry, List.take_append_drop]

theorem drop_set_self {α : Type} {l : List α} {i : Nat} (a : α) (h : i < l.length) :
    (l.set i a).drop i = a :: l.drop (i + 1) := by
  rw [List.drop_eq_getElem_cons (by simpa using h), List.getElem_set_self, List.drop_set_of_lt (by omega)]

/-- One iteration keeps the invariant. The bound `len(blockValidator) - 1`, raised to
1, puts the draw below `i` from `i = 1` on, and at `i = 0` the one entry left is not
`0`, since the iteration at `i = 1` moved entry 1 into position 0. -/
theorem ShuffleInv.step {n i j : Nat} {bv out : List Int} (inv : ShuffleInv n (i + 1) bv out)
    (drawn : j < if bv.length - 1 ≤ 1 then 1 else bv.length - 1) :
    let temp := bv.getD j 0
    let bv2 := (bv.set j (bv.getD i 0)).set i temp
    ShuffleInv n i (bv2.take i ++ bv2.drop (i + 1)) (out.set i temp) := by
  intro temp bv2
  have len := inv.length
  have below : j ≤ i ∧ (1 ≤ i → j < i) := by
    split at drawn <;> omega
  obtain ⟨cut, swapped⟩ := swap_cut len below.1
  have hi : i < out.length := by
    rw [inv.out_length]
    exact inv.left
  have cutLength : (bv2.take i ++ bv2.drop (i + 1)).length = i := by
    simp [bv2, len]
  -- The entries left: position `j` now holds entry `i`, the others are unchanged.
  have entry : ∀ p (h : p < (bv2.take i ++ bv2.drop (i + 1)).length),
      (bv2.take i ++ bv2.drop (i + 1))[p] = if j = p then bv.getD i 0 else bv.getD p 0 := by
    intro p h
    have inside : p < bv.length := by omega
    have inside2 : p < bv2.length := by simp [bv2]; omega
    have kept := List.getElem_of_eq cut.symm inside2
    rw [List.getElem_append_left h] at kept
    simp only [bv2, List.getElem_set, if_neg (show ¬i = p by omega)] at kept
    rw [← kept, getD_of_lt 0 inside]
  have aheadAt : ∀ p, p < bv.length → bv.getD p 0 = p ∨ (i + 1 : Nat) ≤ bv.getD p 0 := by
    intro p h
    rw [getD_of_lt 0 h]
    exact inv.ahead p h
  refine ⟨by have := inv.left; omega, cutLength, by simp [inv.out_length], ?perm, ?ahead, ?last,
    ?placed⟩
  case perm =>
    rw [drop_set_self temp hi, ← List.singleton_append, ← List.append_assoc, cut]
    exact (swapped.append_right _).trans inv.perm
  case ahead =>
    intro p h
    rw [entry p h]
    split
    · rcases aheadAt i (by omega) with own | above <;> omega
    · rcases aheadAt p (by omega) with own | above <;> omega
  case last =>
    intro one single
    subst one
    have zero := entry 0 (by omega)
    simp only [single, List.getElem_singleton, if_pos (show j = 0 by omega)] at zero
    rcases aheadAt 1 (by omega) with own | above <;> omega
  case placed =>
    intro p h above
    rw [List.getElem_set]
    split
    · rcases Nat.eq_zero_or_pos i with zero | pos
      · -- The last iteration: the one entry left is not `0`.
        subst zero
        have one := inv.last rfl
        obtain ⟨x, single⟩ := List.length_eq_one_iff.mp len
        have first : j = 0 := by omega
        subst single
        simp only [temp, first, List.getD_cons_zero]
        intro same
        apply one
        rw [same]
        congr 1
        omega
      · rcases aheadAt j (by omega) with own | ahead <;> omega
    · exact inv.placed p (by simpa using h) (by omega)

/-- The whole loop, by induction on the iterations left, each one kept by
`ShuffleInv.step`: what it returns is a permutation of the indices with no index in
its own position. -/
theorem genM2Loop_spec {n : Nat} (k : Nat) (s : σ) (bv out : List Int) (inv : ShuffleInv n k bv out) :
    let m2 := genM2Loop src k s bv out
    m2.length = n ∧ m2.Perm ((List.range n).map Int.ofNat) ∧ ∀ p (h : p < m2.length), m2[p] ≠ p := by
  induction k generalizing s bv out with
  | zero =>
    have empty : bv = [] := List.eq_nil_of_length_eq_zero inv.length
    have perm := inv.perm
    rw [empty, List.nil_append, List.drop_zero] at perm
    exact ⟨inv.out_length, perm, fun p h => inv.placed p h (Nat.zero_le p)⟩
  | succ i ih =>
    have len := inv.length
    rcases draw : src.intn s (if bv.length - 1 ≤ 1 then 1 else bv.length - 1) with ⟨j, s'⟩
    have drawn : j < if bv.length - 1 ≤ 1 then 1 else bv.length - 1 := by
      have := src.intn_lt s (if bv.length - 1 ≤ 1 then 1 else bv.length - 1) (by split <;> omega)
      rwa [draw] at this
    simp only [genM2Loop, draw]
    exact ih s' _ _ (inv.step drawn)

/-- `GenM2FromRandomize` for two or more signers, whatever the randomizes and the
draws: a permutation of the signer indices in which no index is its own M2. -/
theorem genM2FromRandomize_derangement (randomizes : List Int) {n : Nat} (two : 2 ≤ n) :
    let m2 := src.genM2FromRandomize randomizes n
    m2.length = n ∧ m2.Perm ((List.range n).map Int.ofNat) ∧ ∀ p (h : p < m2.length), m2[p] ≠ p := by
  have start := shuffleInv_start two
  rw [← newSlice_indices] at start
  have len : (newSlice 0 n 1).length = n := by simp [newSlice_indices]
  simp only [RandSource.genM2FromRandomize, len]
  exact genM2Loop_spec src n _ _ _ start

end Shuffle

/-! ## The `Validators` bytes -/

/-- `posv.ExtractValidatorsFromBytes`: one number per whole `M2ByteLength` chunk, its
zero bytes trimmed; a chunk that is not a number makes the whole list empty. -/
def extractValidatorsFromBytes (byteValidators : List UInt8) : List Int :=
  let lenValidator := byteValidators.length / m2ByteLength
  match (List.range lenValidator).mapM fun i =>
      Lib.atoi (Lib.trimByte ((byteValidators.drop (i * m2ByteLength)).take m2ByteLength) 0) with
  | some validators => validators
  | none => []

/-- The chunk `BuildValidatorFromM2` writes for one number. -/
theorem leftPad_toString {x : Int} (short : (toString x).length ≤ m2ByteLength) :
    leftPadBytes (toString x).toUTF8.toList m2ByteLength =
      List.replicate (m2ByteLength - (toString x).length) 0 ++ (toString x).toUTF8.toList := by
  rw [leftPadBytes, Lib.length_toString_bytes]
  split
  · rw [show m2ByteLength - (toString x).length = 0 by omega, List.replicate_zero, List.nil_append]
  · rfl

theorem length_leftPad_toString {x : Int} (short : (toString x).length ≤ m2ByteLength) :
    (leftPadBytes (toString x).toUTF8.toList m2ByteLength).length = m2ByteLength := by
  rw [leftPad_toString short, List.length_append, List.length_replicate, Lib.length_toString_bytes]
  omega

/-- A chunk reads back as its number: the trim takes off the padding and nothing of
the text, which has no zero byte. -/
theorem atoi_leftPad_toString {x : Int} (short : (toString x).length ≤ m2ByteLength) :
    Lib.atoi (Lib.trimByte (leftPadBytes (toString x).toUTF8.toList m2ByteLength) 0) = some x := by
  have nonempty : (toString x).toUTF8.toList ≠ [] := by
    rw [Lib.toString_bytes]
    simp [Nat.toDigits_ne_nil]
  rw [leftPad_toString short, Lib.trimByte_leftPad _ _ _ nonempty (Lib.zero_not_mem_toString_bytes x),
    Lib.atoi_toString]

/-- The chunks of `BuildValidatorFromM2`'s bytes, as `ExtractValidatorsFromBytes`
slices them, are the numbers' chunks. -/
theorem chunks_buildValidatorFromM2 (l : List Int) (short : ∀ x ∈ l, (toString x).length ≤ m2ByteLength) :
    (List.range l.length).map (fun i => ((buildValidatorFromM2 l).drop (i * m2ByteLength)).take m2ByteLength) =
      l.map fun x => leftPadBytes (toString x).toUTF8.toList m2ByteLength := by
  induction l with
  | nil => rfl
  | cons x l ih =>
    have chunk := length_leftPad_toString (short x (by simp))
    rw [List.length_cons, List.range_succ_eq_map, List.map_cons, List.map_map, List.map_cons]
    congr 1
    · rw [buildValidatorFromM2, List.flatMap_cons, Nat.zero_mul, List.drop_zero,
        List.take_append_of_le_length (by omega), List.take_of_length_le (by omega)]
    · rw [← ih fun y mem => short y (by simp [mem])]
      apply List.map_congr_left
      intro i _
      simp only [Function.comp, buildValidatorFromM2, List.flatMap_cons, Nat.succ_mul]
      rw [Nat.add_comm, ← List.drop_drop, List.drop_left' chunk]

theorem length_buildValidatorFromM2 (l : List Int)
    (short : ∀ x ∈ l, (toString x).length ≤ m2ByteLength) :
    (buildValidatorFromM2 l).length = l.length * m2ByteLength := by
  induction l with
  | nil => rfl
  | cons x l ih =>
    rw [buildValidatorFromM2, List.flatMap_cons, List.length_append, ← buildValidatorFromM2,
      ih fun y mem => short y (by simp [mem]), length_leftPad_toString (short x (by simp)),
      List.length_cons, Nat.succ_mul, Nat.add_comm]

theorem mapM_eq_some_self {α : Type} {l : List α} {f : α → Option α} (read : ∀ x ∈ l, f x = some x) :
    l.mapM f = some l := by
  induction l with
  | nil => rfl
  | cons x l ih =>
    rw [List.mapM_cons, read x (by simp), ih fun y mem => read y (by simp [mem])]
    rfl

/-- `ExtractValidatorsFromBytes` reads back what `BuildValidatorFromM2` writes, for
numbers of at most `M2ByteLength` characters. -/
theorem extractValidatorsFromBytes_build (l : List Int)
    (short : ∀ x ∈ l, (toString x).length ≤ m2ByteLength) :
    extractValidatorsFromBytes (buildValidatorFromM2 l) = l := by
  have chunks : (List.range l.length).mapM (fun i => Lib.atoi (Lib.trimByte
      (((buildValidatorFromM2 l).drop (i * m2ByteLength)).take m2ByteLength) 0)) = some l := by
    have sliced := congrArg (List.mapM fun c => Lib.atoi (Lib.trimByte c 0))
      (chunks_buildValidatorFromM2 l short)
    simp only [List.mapM_map, Function.comp_def] at sliced
    rw [sliced]
    exact mapM_eq_some_self fun x mem => atoi_leftPad_toString (short x mem)
  rw [extractValidatorsFromBytes, length_buildValidatorFromM2 l short,
    Nat.mul_div_cancel _ (by decide : 0 < m2ByteLength), chunks]

/-! ## `getM1M2` -/

/-- `getM1M2`: masternode `i` (an M1) is validated by the masternode at
`validators[i] mod n` (its M2), moved on by `moveM2` after `TIPRandomize`. The `int64`
remainder is taken to `uint64`, and the map is written one masternode at a time, a
later write of a key replacing an earlier one. `epoch` is `config.Posv.Epoch`, which
nothing sets when the chain configuration leaves it zero; the `uint64` remainder by it
then panics, an error here with the panic's message. -/
def getM1M2 (epoch : Nat) (masternodes : List Address) (validators : List Int) (number : Nat) :
    Except String ((Address → Option Address) × Nat) :=
  let maxMNs := masternodes.length
  if validators.length < maxMNs then .error "len(m2) is less than len(m1)"
  else if 0 < maxMNs then
    if isTIPRandomize number ∧ epoch = 0 then .error "runtime error: integer divide by zero" else
    let moveM2 := if isTIPRandomize number then toUint64 number % epoch / maxMNs % maxMNs else 0
    let m1m2 := masternodes.zipIdx.foldl (fun m1m2 (m1, i) =>
      let m2Index := ((validators.getD i 0).tmod maxMNs % 2 ^ 64).toNat
      let m2Index := toUint64 (m2Index + moveM2) % maxMNs
      fun a => if a = m1 then some (masternodes.getD m2Index 0) else m1m2 a) fun _ => none
    .ok (m1m2, moveM2)
  else .ok (fun _ => none, 0)

/-- A map written key by key along `l.zipIdx k`: a key that is not in `l` keeps its
first value, and when no key repeats, each holds what was written for it. -/
theorem foldl_write {α β : Type} [DecidableEq α] (g : α → Nat → β)
    (write : (α → Option β) → α × Nat → α → Option β)
    (writes : ∀ m x i a, write m (x, i) a = if a = x then some (g x i) else m a)
    (l : List α) (k : Nat) (init : α → Option β) :
    (∀ a, a ∉ l → (l.zipIdx k).foldl write init a = init a) ∧
      (l.Nodup → ∀ i (h : i < l.length), (l.zipIdx k).foldl write init l[i] = some (g l[i] (k + i))) := by
  induction l generalizing k init with
  | nil => exact ⟨fun _ _ => rfl, fun _ i h => absurd h (by simp)⟩
  | cons x l ih =>
    obtain ⟨outside, inside⟩ := ih (k + 1) (write init (x, k))
    rw [List.zipIdx_cons, List.foldl_cons]
    refine ⟨fun a notMem => ?_, fun distinct i h => ?_⟩
    · rw [outside a (fun mem => notMem (by simp [mem])), writes,
        if_neg (fun same => notMem (by simp [same]))]
    · cases i with
      | zero =>
        rw [List.getElem_cons_zero, outside x (List.nodup_cons.mp distinct).1, writes, if_pos rfl,
          Nat.add_zero]
      | succ i =>
        rw [List.getElem_cons_succ, inside (List.nodup_cons.mp distinct).2 i (by simpa using h)]
        congr 2
        omega

/-- What `getM1M2` returns for distinct masternodes and enough validators: the map
keys exactly the masternodes, each to the masternode its index picks. -/
theorem getM1M2_spec {epoch : Nat} (positive : 0 < epoch) (number : Nat) {masternodes : List Address}
    {validators : List Int} (distinct : masternodes.Nodup) (enough : masternodes.length ≤ validators.length)
    (nonempty : 0 < masternodes.length) :
    let n := masternodes.length
    let moveM2 := if isTIPRandomize number then toUint64 number % epoch / n % n else 0
    ∃ m1m2, getM1M2 epoch masternodes validators number = .ok (m1m2, moveM2) ∧
      (∀ a, a ∉ masternodes → m1m2 a = none) ∧
      ∀ i (h : i < n), m1m2 masternodes[i] =
        some (masternodes.getD (toUint64 (((validators.getD i 0).tmod n % 2 ^ 64).toNat + moveM2) % n) 0) := by
  intro n moveM2
  rw [getM1M2, if_neg (by omega), if_pos nonempty, if_neg fun ⟨_, zero⟩ => by omega]
  refine ⟨_, rfl, ?_⟩
  refine (foldl_write (fun _ i => masternodes.getD
      (toUint64 (((validators.getD i 0).tmod n % 2 ^ 64).toNat + moveM2) % n) 0)
    _ ?_ masternodes 0 fun _ => none).imp id fun inside i h => ?_
  · intro _ _ _ _
    rfl
  · rw [inside distinct i h, Nat.zero_add]

theorem entry_of_perm {n : Nat} {m2 : List Int} (perm : m2.Perm ((List.range n).map Int.ofNat))
    (i : Nat) (h : i < m2.length) : ∃ k < n, m2.getD i 0 = k := by
  obtain ⟨k, inRange, same⟩ := List.mem_map.mp (perm.subset (List.getElem_mem h))
  exact ⟨k, List.mem_range.mp inRange, by rw [getD_of_lt 0 h, ← same]; rfl⟩

/-- With an M2 list that is a permutation of the indices, `getM1M2` rotates it by
`moveM2`: masternode `i` gets the masternode at `(m2[i] + moveM2) mod n`. -/
theorem getM1M2_rotation {epoch : Nat} (positive : 0 < epoch) (number : Nat) {masternodes : List Address}
    {m2 : List Int}
    (distinct : masternodes.Nodup) (nonempty : 0 < masternodes.length)
    (small : masternodes.length < 2 ^ 63)
    (perm : m2.Perm ((List.range masternodes.length).map Int.ofNat)) :
    ∃ m1m2 moveM2, getM1M2 epoch masternodes m2 number = .ok (m1m2, moveM2) ∧
      moveM2 < masternodes.length ∧ (∀ a, a ∉ masternodes → m1m2 a = none) ∧
      ∀ i (h : i < masternodes.length), ∃ k < masternodes.length, m2.getD i 0 = k ∧
        m1m2 masternodes[i] = some (masternodes.getD ((k + moveM2) % masternodes.length) 0) := by
  have len : m2.length = masternodes.length := by simpa using perm.length_eq
  obtain ⟨m1m2, ok, outside, inside⟩ :=
    getM1M2_spec positive number distinct (show masternodes.length ≤ m2.length by omega) nonempty
  refine ⟨m1m2, _, ok, ?_, outside, fun i h => ?_⟩
  · split
    · exact Nat.mod_lt _ nonempty
    · exact nonempty
  · obtain ⟨k, below, entry⟩ := entry_of_perm perm i (by omega)
    refine ⟨k, below, entry, ?_⟩
    rw [inside i h, entry, Int.tmod_eq_of_lt (by omega) (by omega)]
    -- The moved index stays below `2 ^ 64`, so the `uint64` sum does not wrap.
    have moved : (if isTIPRandomize number then toUint64 number % epoch / masternodes.length %
        masternodes.length else 0) < masternodes.length := by
      split
      · exact Nat.mod_lt _ nonempty
      · exact nonempty
    generalize (if isTIPRandomize number then toUint64 number % epoch / masternodes.length %
      masternodes.length else 0) = move at moved ⊢
    congr 3
    unfold toUint64
    omega

/-- `m1m2` pairs the masternodes among themselves one to one: exactly the masternodes
have an M2, and with a missing M2 read as the key itself the map is a bijection of the
masternodes. -/
structure Assignment (masternodes : List Address) (m1m2 : Address → Option Address) : Prop where
  keys : ∀ a, (m1m2 a).isSome ↔ a ∈ masternodes
  bijOn : Set.BijOn (fun a => (m1m2 a).getD a) {a | a ∈ masternodes} {a | a ∈ masternodes}

/-- `getM1M2` on an M2 list that permutes the indices of distinct masternodes is an
assignment; without the rotation (`moveM2 = 0`), an M2 list with no fixed index
gives no masternode itself. -/
theorem getM1M2_assignment {epoch : Nat} (positive : 0 < epoch) (number : Nat) {masternodes : List Address}
    {m2 : List Int}
    (distinct : masternodes.Nodup) (nonempty : 0 < masternodes.length)
    (small : masternodes.length < 2 ^ 63)
    (perm : m2.Perm ((List.range masternodes.length).map Int.ofNat)) :
    ∃ m1m2 moveM2, getM1M2 epoch masternodes m2 number = .ok (m1m2, moveM2) ∧
      Assignment masternodes m1m2 ∧
      (moveM2 = 0 → (∀ p (h : p < m2.length), m2[p] ≠ p) → ∀ a ∈ masternodes, m1m2 a ≠ some a) := by
  obtain ⟨m1m2, moveM2, ok, moved, outside, inside⟩ :=
    getM1M2_rotation positive number distinct nonempty small perm
  have len : m2.length = masternodes.length := by simpa using perm.length_eq
  have m2Distinct : m2.Nodup := perm.nodup_iff.mpr (List.nodup_range.map Int.ofNat_injective)
  -- Every masternode is `masternodes[i]`, sent to the masternode at `(m2[i] + moveM2) mod n`.
  have image : ∀ a ∈ masternodes, ∃ i, ∃ h : i < masternodes.length, a = masternodes[i] ∧
      ∃ k < masternodes.length, m2.getD i 0 = k ∧
        m1m2 a = some (masternodes.getD ((k + moveM2) % masternodes.length) 0) := by
    intro a mem
    obtain ⟨i, h, rfl⟩ := List.getElem_of_mem mem
    exact ⟨i, h, rfl, inside i h⟩
  have send : ∀ a ∈ masternodes, (m1m2 a).getD a ∈ masternodes := by
    intro a mem
    obtain ⟨i, h, -, k, below, -, sent⟩ := image a mem
    rw [sent, Option.getD_some, getD_of_lt 0 (Nat.mod_lt _ nonempty)]
    exact List.getElem_mem _
  -- Distinct masternodes, distinct M2 indices and a rotation: no two masternodes share an M2.
  have injective : Set.InjOn (fun a => (m1m2 a).getD a) {a | a ∈ masternodes} := by
    intro a memA b memB same
    obtain ⟨i, hi, rfl, k, belowK, entryK, sentA⟩ := image a memA
    obtain ⟨j, hj, rfl, l, belowL, entryL, sentB⟩ := image b memB
    simp only [sentA, sentB, Option.getD_some, getD_of_lt 0 (Nat.mod_lt _ nonempty)] at same
    have sameIndex := distinct.getElem_inj_iff.mp same
    have kl : k = l :=
      Nat.ModEq.eq_of_lt_of_lt (Nat.ModEq.add_right_cancel' moveM2 sameIndex) belowK belowL
    have ij : i = j := by
      rw [getD_of_lt 0 (by omega)] at entryK entryL
      exact m2Distinct.getElem_inj_iff.mp (by rw [entryK, entryL, kl])
    subst ij
    rfl
  refine ⟨m1m2, moveM2, ok, ⟨fun a => ⟨fun keyed => ?_, fun mem => ?_⟩, ?_⟩, ?_⟩
  · by_contra notMem
    rw [outside a notMem] at keyed
    exact absurd keyed (by decide)
  · obtain ⟨i, h, -, k, below, -, sent⟩ := image a mem
    rw [sent]
    rfl
  · exact (Set.Finite.injOn_iff_bijOn_of_mapsTo (List.finite_toSet masternodes)
      fun a mem => send a mem).mp injective
  · intro still derange a mem same
    obtain ⟨i, h, rfl, k, below, entry, sent⟩ := image a mem
    rw [still, Nat.add_zero, Nat.mod_eq_of_lt below, getD_of_lt 0 below, same] at sent
    have ki : k = i := distinct.getElem_inj_iff.mp (Option.some_injective _ sent).symm
    rw [getD_of_lt 0 (by omega)] at entry
    exact derange i (by omega) (by rw [entry, ki])

/-- The indices of up to `MaxMasternodes` signers fit the four bytes of a chunk. -/
theorem short_of_perm {n : Nat} {m2 : List Int} (perm : m2.Perm ((List.range n).map Int.ofNat))
    (bounded : n ≤ maxMasternodes) : ∀ x ∈ m2, (toString x).length ≤ m2ByteLength := by
  intro x mem
  obtain ⟨k, inRange, rfl⟩ := List.mem_map.mp (perm.subset mem)
  have small : k < 10 ^ 4 :=
    Nat.lt_of_lt_of_le (List.mem_range.mp inRange) (Nat.le_trans bounded (by decide))
  exact Lib.length_toString_of_lt (by decide) small

/-- The assignment of a checkpoint for distinct masternodes: `GenM2FromRandomize`
permutes the indices with no fixed one, `BuildValidatorFromM2` and
`ExtractValidatorsFromBytes` round-trip every list of numbers of up to four
characters, and `getM1M2` on the decoded list pairs the masternodes one to one, with
no masternode its own M2 before the rotation, for every positive epoch. -/
theorem m2_assignment_of_distinct {σ : Type} (src : RandSource σ) (randomizes : List Int) {n : Nat}
    (two : 2 ≤ n) (bounded : n ≤ maxMasternodes) {epoch : Nat} (positive : 0 < epoch) (number : Nat)
    {masternodes : List Address}
    (sized : masternodes.length = n) (distinct : masternodes.Nodup) :
    let m2 := src.genM2FromRandomize randomizes n
    (m2.Perm ((List.range n).map Int.ofNat) ∧ ∀ p (h : p < m2.length), m2[p] ≠ p) ∧
      (∀ l : List Int, (∀ x ∈ l, (toString x).length ≤ 4) →
        extractValidatorsFromBytes (buildValidatorFromM2 l) = l) ∧
      ∃ m1m2 moveM2,
        getM1M2 epoch masternodes (extractValidatorsFromBytes (buildValidatorFromM2 m2)) number =
          .ok (m1m2, moveM2) ∧
        Assignment masternodes m1m2 ∧ (moveM2 = 0 → ∀ a ∈ masternodes, m1m2 a ≠ some a) := by
  intro m2
  obtain ⟨-, perm, derange⟩ := genM2FromRandomize_derangement src randomizes two
  have short := short_of_perm perm bounded
  subst sized
  obtain ⟨m1m2, moveM2, ok, assignment, fixed⟩ := getM1M2_assignment positive number distinct
    (by omega) (Nat.lt_of_le_of_lt bounded (by decide)) perm
  refine ⟨⟨perm, derange⟩, fun l short => extractValidatorsFromBytes_build l short, m1m2, moveM2, ?_,
    assignment, fun still => fixed still derange⟩
  rw [extractValidatorsFromBytes_build m2 short, ok]

/-- A `math/rand` source that answers `0` to every draw. -/
def zeroSource : RandSource Unit := ⟨fun _ => (), fun s _ => (0, s), fun _ _ pos => pos⟩

theorem m2_assignment_of_two_masternodes :
    (2 ≤ 2 ∧ 2 ≤ maxMasternodes ∧ 0 < 900 ∧ ([0, 1] : List Address).length = 2 ∧
      ([0, 1] : List Address).Nodup) ∧
      let m2 := zeroSource.genM2FromRandomize [] 2
      (m2.Perm ((List.range 2).map Int.ofNat) ∧ ∀ p (h : p < m2.length), m2[p] ≠ p) ∧
        (∀ l : List Int, (∀ x ∈ l, (toString x).length ≤ 4) →
          extractValidatorsFromBytes (buildValidatorFromM2 l) = l) ∧
        ∃ m1m2 moveM2,
          getM1M2 900 [0, 1] (extractValidatorsFromBytes (buildValidatorFromM2 m2)) 0 =
            .ok (m1m2, moveM2) ∧
          Assignment [0, 1] m1m2 ∧ (moveM2 = 0 → ∀ a ∈ ([0, 1] : List Address), m1m2 a ≠ some a) :=
  ⟨⟨Nat.le_refl 2, by decide, by decide, rfl, by decide⟩,
    m2_assignment_of_distinct zeroSource [] (Nat.le_refl 2) (by decide) (by decide) 0 rfl (by decide)⟩

/-! ## The engine's hook -/

/-- The engine's `Chain.shuffle` when `math/rand` is `src`: the loop of
`GenM2FromRandomize` from the source seeded with the `int64` value of the total. -/
def RandSource.shuffle {σ : Type} (src : RandSource σ) (total : Int) (lenSigners : Nat) : List Int :=
  genM2Loop src (newSlice 0 lenSigners 1).length (src.seed (toInt64 (total % 2 ^ 64).toNat))
    (newSlice 0 lenSigners 1) (List.replicate lenSigners 0)

/-- The `int64` value of `x` is `x` modulo `2 ^ 64`. -/
theorem toInt64_emod (x j : Int) : (toInt64 (x % 2 ^ 64).toNat + j) % 2 ^ 64 = (x + j) % 2 ^ 64 := by
  unfold toInt64
  split <;> omega

/-- The `int64` running total is the `int64` value of the exact sum. -/
theorem foldl_addInt64 (randomizes : List Int) :
    randomizes.foldl addInt64 0 = toInt64 (randomizes.sum % 2 ^ 64).toNat := by
  suffices step : ∀ (l : List Int) (s : Int),
      l.foldl addInt64 (toInt64 (s % 2 ^ 64).toNat) = toInt64 ((s + l.sum) % 2 ^ 64).toNat by
    simpa [toInt64] using step randomizes 0
  intro l
  induction l with
  | nil => simp
  | cons j l ih =>
    intro s
    rw [List.foldl_cons, List.sum_cons, ← Int.add_assoc, ← ih, addInt64, toInt64_emod]

theorem genM2FromRandomize_engine {σ : Type} (src : RandSource σ) (chain : Chain)
    (shuffled : chain.shuffle = src.shuffle) (randomizes : List Int) (lenSigners : Nat) :
    genM2FromRandomize chain randomizes lenSigners = src.genM2FromRandomize randomizes lenSigners := by
  rw [genM2FromRandomize, shuffled, RandSource.shuffle, RandSource.genM2FromRandomize, foldl_addInt64]

/-- `GetValidators` with `math/rand` as the source: for two to `MaxMasternodes`
masternodes, the bytes it writes decode to a permutation of the indices with no fixed
index. -/
theorem getValidators_derangement {σ : Type} (src : RandSource σ) (chain : Chain)
    (shuffled : chain.shuffle = src.shuffle) {masternodes : List Address}
    (two : 2 ≤ masternodes.length) (bounded : masternodes.length ≤ maxMasternodes)
    {bytes : List UInt8} (written : getValidators chain masternodes = .ok bytes) :
    let m2 := extractValidatorsFromBytes bytes
    m2.Perm ((List.range masternodes.length).map Int.ofNat) ∧ ∀ p (h : p < m2.length), m2[p] ≠ p := by
  rw [getValidators, if_pos (by omega)] at written
  cases drawn : masternodes.mapM chain.randomize with
  | error e =>
    rw [drawn] at written
    cases written
  | ok candidates =>
    rw [drawn] at written
    cases written
    obtain ⟨-, perm, derange⟩ := genM2FromRandomize_derangement src candidates two
    rw [genM2FromRandomize_engine src chain shuffled,
      extractValidatorsFromBytes_build _ (short_of_perm perm bounded)]
    exact ⟨perm, derange⟩

/-- A chain whose masternodes all hold the randomize value 0 and whose shuffle is
`math/rand` as `zeroSource`, which always draws 0. -/
def zeroChain : Chain where
  getHeader _ _ := none
  blockPenalties _ := []
  hookPenalty _ := .ok []
  hookPenaltyTIPSigning _ _ _ := .ok []
  randomize _ := .ok 0
  shuffle := zeroSource.shuffle
  signersFromContract _ := .ok []
  calcDifficulty _ _ := 1
  getMasternodes _ := []
  getValidator _ _ := .ok 0
  verifyForkHashes _ := .ok ()

/-- Three masternodes with the randomize value 0 each. -/
theorem getValidators_derangement_three :
    zeroChain.shuffle = zeroSource.shuffle ∧ 2 ≤ ([1, 2, 3] : List Address).length ∧
      ([1, 2, 3] : List Address).length ≤ maxMasternodes ∧
      ∃ bytes, getValidators zeroChain [1, 2, 3] = .ok bytes ∧
        let m2 := extractValidatorsFromBytes bytes
        m2.Perm ((List.range 3).map Int.ofNat) ∧ ∀ p (h : p < m2.length), m2[p] ≠ p :=
  ⟨rfl, by decide, by decide, _, rfl,
    @getValidators_derangement _ zeroSource zeroChain rfl [1, 2, 3] (by decide) (by decide) _ rfl⟩

/-- Two signers always get the M2 list `[1, 0]`, the one derangement of two. -/
theorem genM2FromRandomize_two {σ : Type} (src : RandSource σ) (randomizes : List Int) :
    src.genM2FromRandomize randomizes 2 = [1, 0] := by
  obtain ⟨len, perm, derange⟩ := genM2FromRandomize_derangement src randomizes (Nat.le_refl 2)
  generalize src.genM2FromRandomize randomizes 2 = m2 at len perm derange ⊢
  match m2, len with
  | [a, b], _ =>
    have index : ∀ x ∈ [a, b], ∃ k : Nat, k < 2 ∧ x = k := fun x mem => by
      obtain ⟨k, inRange, same⟩ := List.mem_map.mp (perm.subset mem)
      exact ⟨k, List.mem_range.mp inRange, same.symm⟩
    obtain ⟨k, first, rfl⟩ := index a List.mem_cons_self
    obtain ⟨l, second, rfl⟩ := index b (List.mem_cons_of_mem _ List.mem_cons_self)
    have moved : (k : Int) ≠ 0 := derange 0 (by simp)
    have movedToo : (l : Int) ≠ 1 := derange 1 (by simp)
    rw [show (k : Int) = 1 by omega, show (l : Int) = 0 by omega]

/-- A masternode listed twice: the M2 list of two signers is `[1, 0]`, and `getM1M2`
makes the masternode at both positions its own M2. -/
theorem getM1M2_of_repeated_masternode {σ : Type} (src : RandSource σ) (randomizes : List Int) :
    ∃ m1m2, getM1M2 900 [0, 0]
        (extractValidatorsFromBytes (buildValidatorFromM2 (src.genM2FromRandomize randomizes 2))) 0 =
      .ok (m1m2, 0) ∧ m1m2 0 = some 0 := by
  have short : ∀ x ∈ ([1, 0] : List Int), (toString x).length ≤ m2ByteLength := by
    intro x mem
    rcases List.mem_pair.mp mem with rfl | rfl
    · have one : (toString ((1 : Nat) : Int)).length ≤ m2ByteLength :=
        Lib.length_toString_of_lt (by decide) (by decide)
      exact one
    · have zero : (toString ((0 : Nat) : Int)).length ≤ m2ByteLength :=
        Lib.length_toString_of_lt (by decide) (by decide)
      exact zero
  rw [genM2FromRandomize_two, extractValidatorsFromBytes_build _ short]
  exact ⟨_, rfl, rfl⟩

theorem getM1M2_repeated_masternode :
    ∃ m1m2, getM1M2 900 [0, 0]
        (extractValidatorsFromBytes (buildValidatorFromM2 (zeroSource.genM2FromRandomize [] 2))) 0 =
      .ok (m1m2, 0) ∧ m1m2 0 = some 0 :=
  getM1M2_of_repeated_masternode zeroSource []

end TomoChain.Posv
