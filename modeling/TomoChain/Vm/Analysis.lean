import Mathlib

set_option autoImplicit false

/-! The analysis of jump destinations, from `core/vm/analysis.go`: `codeBitmap` marks the
bytes of the code that are PUSH data in a bit vector, with `set8` for eight bytes at a
time and `set` for one, and `destinations.has` accepts a destination when it lies in the
code, holds `JUMPDEST` and is not marked. Bit `i` of the vector is bit `7 - i % 8` of
byte `i / 8`; the vector has `len(code) / 8 + 5` bytes, four more than the code needs, for
the data of a PUSH that runs past the end of the code.

A write outside the vector is a panic of the code and `none` here. Positions are `Nat`:
the code's `uint64` program counter stays below `len(code) + 33`, far from wrapping. -/
namespace TomoChain.Vm

/-- `PUSH1`. -/
def push1 : UInt8 := 0x60

/-- `PUSH32`. -/
def push32 : UInt8 := 0x7f

/-- `JUMPDEST`. -/
def jumpdestOp : UInt8 := 0x5b

/-- `(*bits)[index] |= mask`: a panic outside the vector. -/
def orAt (bits : List UInt8) (index : Nat) (mask : UInt8) : Option (List UInt8) :=
  if index < bits.length then some (bits.set index (bits.getD index 0 ||| mask)) else none

/-- `bitvec.set`: marks the byte at `pos`. -/
def bitvecSet (bits : List UInt8) (pos : Nat) : Option (List UInt8) :=
  orAt bits (pos / 8) (0x80 >>> (pos % 8).toUInt8)

/-- `bitvec.set8`: marks the eight bytes from `pos`, across two bytes of the vector. -/
def bitvecSet8 (bits : List UInt8) (pos : Nat) : Option (List UInt8) := do
  let bits ← orAt bits (pos / 8) (0xFF >>> (pos % 8).toUInt8)
  orAt bits (pos / 8 + 1) (~~~(0xFF >>> (pos % 8).toUInt8))

/-- `bitvec.codeSegment`: whether the byte at `pos` is unmarked, that is code. -/
def codeSegment (bits : List UInt8) (pos : Nat) : Bool :=
  bits.getD (pos / 8) 0 &&& (0x80 >>> (pos % 8).toUInt8) == 0

/-- The loop `for ; numbits >= 8; numbits -= 8` of `codeBitmap`: returns the vector, `pc`
and `numbits` after it. -/
def setEights (bits : List UInt8) (pc : Nat) : Nat → Option (List UInt8 × Nat × Nat)
  | numbits + 8 =>
    match bitvecSet8 bits pc with
    | none => none
    | some bits => setEights bits (pc + 8) numbits
  | numbits => some (bits, pc, numbits)

/-- The loop `for ; numbits > 0; numbits--` of `codeBitmap`. -/
def setOnes (bits : List UInt8) (pc : Nat) : Nat → Option (List UInt8 × Nat)
  | 0 => some (bits, pc)
  | numbits + 1 =>
    match bitvecSet bits pc with
    | none => none
    | some bits => setOnes bits (pc + 1) numbits

/-- The outer loop of `codeBitmap` from `pc`, with `fuel` iterations; each moves `pc` on by
at least one, so `len(code) + 1` are enough, and running out of them is `none`. -/
def codeBitmapLoop (code : List UInt8) : Nat → List UInt8 → Nat → Option (List UInt8)
  | 0, _, _ => none
  | fuel + 1, bits, pc =>
    if pc < code.length then
      let op := code.getD pc 0
      if op ≥ push1 ∧ op ≤ push32 then
        match setEights bits (pc + 1) (op - push1 + 1).toNat with
        | none => none
        | some (bits, pc, numbits) =>
          match setOnes bits pc numbits with
          | none => none
          | some (bits, pc) => codeBitmapLoop code fuel bits pc
      else codeBitmapLoop code fuel bits (pc + 1)
    else some bits

/-- `codeBitmap`. -/
def codeBitmap (code : List UInt8) : Option (List UInt8) :=
  codeBitmapLoop code (code.length + 1) (List.replicate (code.length / 8 + 1 + 4) 0) 0

/-- `destinations.has`, with the bit vectors analysed so far by code hash: whether `dest`
is a jump destination of `code`, and the vectors after. -/
def has {Hash : Type} [DecidableEq Hash] (d : Hash → Option (List UInt8)) (codehash : Hash)
    (code : List UInt8) (dest : Nat) : Option (Bool × (Hash → Option (List UInt8))) :=
  let udest := dest.toUInt64.toNat
  -- `dest.BitLen() >= 63 || udest >= uint64(len(code))`
  if dest.size ≥ 63 ∨ udest ≥ code.length then some (false, d)
  else
    match d codehash with
    | some m => some (code.getD udest 0 == jumpdestOp && codeSegment m udest, d)
    | none =>
      match codeBitmap code with
      | none => none
      | some m => some (code.getD udest 0 == jumpdestOp && codeSegment m udest, Function.update d codehash (some m))

/-! ## Instruction boundaries -/

/-- The bytes of data after an opcode: `k` after `PUSHk`, none after any other. -/
def pushSize (op : UInt8) : Nat := if op ≥ push1 ∧ op ≤ push32 then (op - push1 + 1).toNat else 0

/-- The instruction boundaries of a code: `0`, and after a boundary inside the code, the
position past its opcode and, for a PUSH, its data. -/
inductive Boundary (code : List UInt8) : Nat → Prop
  | zero : Boundary code 0
  | next {p : Nat} : Boundary code p → p < code.length → Boundary code (p + 1 + pushSize (code.getD p 0))

/-- Position `i` holds data of the PUSH at a boundary `p` of the code. -/
def PushData (code : List UInt8) (i : Nat) : Prop :=
  ∃ p, Boundary code p ∧ p < code.length ∧ p < i ∧ i ≤ p + pushSize (code.getD p 0)

/-! ## The bits of the vector -/

/-- The masks the code uses, on the bit of position `8 q + s`: `0x80 >> r` holds the bit
of `8 q + r` alone, `0xFF >> r` the bits from `8 q + r` on, and its complement those
below. -/
theorem single_mask_and : ∀ r s : Fin 8, ((0x80 : UInt8) >>> r.val.toUInt8 &&& 0x80 >>> s.val.toUInt8) = 0 ↔ r ≠ s := by
  decide

theorem high_mask_and : ∀ r s : Fin 8, ((0xFF : UInt8) >>> r.val.toUInt8 &&& 0x80 >>> s.val.toUInt8) = 0 ↔ s < r := by
  decide

theorem low_mask_and : ∀ r s : Fin 8, (~~~((0xFF : UInt8) >>> r.val.toUInt8) &&& 0x80 >>> s.val.toUInt8) = 0 ↔ r ≤ s := by
  decide

theorem or_and_eq_zero (b mask bit : UInt8) : (b ||| mask) &&& bit = 0 ↔ b &&& bit = 0 ∧ mask &&& bit = 0 := by
  have distrib : (b ||| mask) &&& bit = (b &&& bit) ||| (mask &&& bit) := by
    apply UInt8.toBitVec_inj.mp
    simp only [UInt8.toBitVec_and, UInt8.toBitVec_or, BitVec.and_or_distrib_right]
  rw [distrib, UInt8.or_eq_zero_iff]

theorem getD_set_of_lt {bits : List UInt8} {index : Nat} (inside : index < bits.length) (v : UInt8) (j : Nat) :
    (bits.set index v).getD j 0 = if j = index then v else bits.getD j 0 := by
  simp only [List.getD_eq_getElem?_getD, List.getElem?_set]
  split
  · next same => rw [if_pos same.symm]; rfl
  · next other => rw [if_neg (fun same => other same.symm)]

theorem orAt_length {bits bits' : List UInt8} {index : Nat} {mask : UInt8} (wrote : orAt bits index mask = some bits') :
    bits'.length = bits.length := by
  unfold orAt at wrote
  split at wrote
  · cases wrote
    exact List.length_set
  · cases wrote

theorem orAt_of_lt {bits : List UInt8} {index : Nat} (inside : index < bits.length) (mask : UInt8) :
    ∃ bits', orAt bits index mask = some bits' := ⟨_, if_pos inside⟩

/-- An or into one byte of the vector unmarks no position, and marks those of that byte
whose bit is in the mask. -/
theorem codeSegment_orAt {bits bits' : List UInt8} {index : Nat} {mask : UInt8}
    (wrote : orAt bits index mask = some bits') (i : Nat) :
    codeSegment bits' i = true ↔
      codeSegment bits i = true ∧ (i / 8 = index → (mask &&& 0x80 >>> (i % 8).toUInt8) = 0) := by
  unfold orAt at wrote
  split at wrote
  · next inside =>
    cases wrote
    unfold codeSegment
    rw [getD_set_of_lt inside]
    by_cases same : i / 8 = index
    · rw [if_pos same, beq_iff_eq, beq_iff_eq, or_and_eq_zero, ← same]
      exact ⟨fun both => ⟨both.1, fun _ => both.2⟩, fun both => ⟨both.1, both.2 rfl⟩⟩
    · rw [if_neg same]
      exact ⟨fun unmarked => ⟨unmarked, fun other => absurd other same⟩, fun both => both.1⟩
  · cases wrote

theorem bitvecSet_length {bits bits' : List UInt8} {pos : Nat} (wrote : bitvecSet bits pos = some bits') :
    bits'.length = bits.length := orAt_length wrote

/-- `set` marks the byte at `pos` and no other. -/
theorem codeSegment_set {bits bits' : List UInt8} {pos : Nat} (wrote : bitvecSet bits pos = some bits') (i : Nat) :
    codeSegment bits' i = true ↔ codeSegment bits i = true ∧ i ≠ pos := by
  rw [codeSegment_orAt wrote]
  have masks := single_mask_and ⟨pos % 8, Nat.mod_lt _ (by decide)⟩ ⟨i % 8, Nat.mod_lt _ (by decide)⟩
  simp only [ne_eq, Fin.mk.injEq] at masks
  rw [masks]
  refine and_congr_right fun _ => ⟨fun apart same => ?_, fun apart sameByte sameBit => apart ?_⟩
  · exact apart (by rw [same]) (by rw [same])
  · omega

theorem bitvecSet8_length {bits bits' : List UInt8} {pos : Nat} (wrote : bitvecSet8 bits pos = some bits') :
    bits'.length = bits.length := by
  unfold bitvecSet8 at wrote
  cases first : orAt bits (pos / 8) (0xFF >>> (pos % 8).toUInt8) with
  | none => rw [first] at wrote; cases wrote
  | some middle =>
    rw [first] at wrote
    exact (orAt_length wrote).trans (orAt_length first)

/-- `set8` marks the eight bytes from `pos` and no other: the first mask the bytes of
`pos`'s byte from `pos` on, the complement those of the next byte below `pos + 8`. -/
theorem codeSegment_set8 {bits bits' : List UInt8} {pos : Nat} (wrote : bitvecSet8 bits pos = some bits') (i : Nat) :
    codeSegment bits' i = true ↔ codeSegment bits i = true ∧ ¬ (pos ≤ i ∧ i < pos + 8) := by
  unfold bitvecSet8 at wrote
  cases first : orAt bits (pos / 8) (0xFF >>> (pos % 8).toUInt8) with
  | none => rw [first] at wrote; cases wrote
  | some middle =>
    rw [first] at wrote
    have high := high_mask_and ⟨pos % 8, Nat.mod_lt _ (by decide)⟩ ⟨i % 8, Nat.mod_lt _ (by decide)⟩
    have low := low_mask_and ⟨pos % 8, Nat.mod_lt _ (by decide)⟩ ⟨i % 8, Nat.mod_lt _ (by decide)⟩
    simp only [Fin.mk_lt_mk, Fin.mk_le_mk] at high low
    rw [codeSegment_orAt wrote, codeSegment_orAt first, high, low, and_assoc]
    refine and_congr_right fun _ => ⟨fun ⟨below, above⟩ inside => ?_, fun outside => ⟨fun sameByte => ?_, fun nextByte => ?_⟩⟩
    · by_cases sameByte : i / 8 = pos / 8
      · have := below sameByte
        omega
      · have := above (by omega)
        omega
    · omega
    · omega

theorem bitvecSet_of_lt {bits : List UInt8} {pos : Nat} (inside : pos / 8 < bits.length) :
    ∃ bits', bitvecSet bits pos = some bits' := orAt_of_lt inside _

theorem bitvecSet8_of_lt {bits : List UInt8} {pos : Nat} (inside : pos / 8 + 1 < bits.length) :
    ∃ bits', bitvecSet8 bits pos = some bits' := by
  obtain ⟨middle, first⟩ := orAt_of_lt (show pos / 8 < bits.length by omega) (0xFF >>> (pos % 8).toUInt8)
  obtain ⟨bits', second⟩ := orAt_of_lt (show pos / 8 + 1 < middle.length by rw [orAt_length first]; exact inside)
    (~~~(0xFF >>> (pos % 8).toUInt8))
  refine ⟨bits', ?_⟩
  rw [bitvecSet8, first]
  exact second

theorem codeSegment_replicate (n i : Nat) : codeSegment (List.replicate n 0) i = true := by
  have zero : (List.replicate n (0 : UInt8)).getD (i / 8) 0 = 0 := by
    simp only [List.getD_eq_getElem?_getD, List.getElem?_replicate]
    split <;> rfl
  rw [codeSegment, zero, UInt8.zero_and]
  rfl

/-! ## The inner loops -/

/-- The loop of `set8`s from `pc`: it marks `8 * (numbits / 8)` bytes from `pc` when the
vector reaches the byte after the last of them. -/
theorem setEights_spec (bits : List UInt8) (pc numbits : Nat) (room : pc / 8 + numbits / 8 < bits.length) :
    ∃ bits', setEights bits pc numbits = some (bits', pc + 8 * (numbits / 8), numbits % 8) ∧
      bits'.length = bits.length ∧
      ∀ i, codeSegment bits' i = true ↔ codeSegment bits i = true ∧ ¬ (pc ≤ i ∧ i < pc + 8 * (numbits / 8)) := by
  induction bits, pc, numbits using setEights.induct with
  | case1 bits pc numbits failed =>
    obtain ⟨_, wrote⟩ := bitvecSet8_of_lt (show pc / 8 + 1 < bits.length by omega)
    rw [wrote] at failed
    cases failed
  | case2 bits pc numbits middle wrote ih =>
    rw [show numbits.succ.succ.succ.succ.succ.succ.succ.succ = numbits + 8 from rfl] at room ⊢
    have length := bitvecSet8_length wrote
    obtain ⟨bits', ran, kept, marks⟩ := ih (by rw [length]; omega)
    have next : pc + 8 + 8 * (numbits / 8) = pc + 8 * ((numbits + 8) / 8) := by omega
    refine ⟨bits', ?_, kept.trans length, fun i => ?_⟩
    · rw [setEights, wrote]
      dsimp only
      rw [ran, next, Nat.add_mod_right]
    · rw [marks, codeSegment_set8 wrote, and_assoc]
      exact and_congr_right fun _ => by omega
  | case3 bits pc numbits few =>
    have below : numbits < 8 := by
      refine Nat.lt_of_not_le fun atLeast => few (numbits - 8) ?_
      omega
    refine ⟨bits, ?_, rfl, fun i => ?_⟩
    · rw [setEights.eq_2 bits pc numbits few, Nat.div_eq_of_lt below, Nat.mod_eq_of_lt below, Nat.mul_zero,
        Nat.add_zero]
    · exact (and_iff_left (by omega)).symm

/-- The loop of `set`s from `pc`: it marks `numbits` bytes from `pc` when the vector
reaches them. -/
theorem setOnes_spec (bits : List UInt8) (pc numbits : Nat) (room : pc + numbits ≤ 8 * bits.length) :
    ∃ bits', setOnes bits pc numbits = some (bits', pc + numbits) ∧ bits'.length = bits.length ∧
      ∀ i, codeSegment bits' i = true ↔ codeSegment bits i = true ∧ ¬ (pc ≤ i ∧ i < pc + numbits) := by
  induction bits, pc, numbits using setOnes.induct with
  | case1 bits pc =>
    exact ⟨bits, rfl, rfl, fun i => (and_iff_left (by omega)).symm⟩
  | case2 bits pc numbits failed =>
    obtain ⟨_, wrote⟩ := bitvecSet_of_lt (show pc / 8 < bits.length by omega)
    rw [wrote] at failed
    cases failed
  | case3 bits pc numbits middle wrote ih =>
    have length := bitvecSet_length wrote
    obtain ⟨bits', ran, kept, marks⟩ := ih (by rw [length]; omega)
    refine ⟨bits', ?_, kept.trans length, fun i => ?_⟩
    · rw [setOnes, wrote]
      dsimp only
      rw [ran, Nat.add_assoc, Nat.add_comm 1 numbits]
    · rw [marks, codeSegment_set wrote, and_assoc]
      exact and_congr_right fun _ => by omega

/-! ## Boundaries and data -/

section Boundaries

variable {code : List UInt8}

/-- No boundary lies inside an instruction: after a boundary `p` in the code, the next one
is past its data. The induction is on the later boundary; where it would fall inside the
instruction at `q'`, a second induction on it finds the boundary before it inside too. -/
theorem no_boundary_inside {q : Nat} (bq : Boundary code q) :
    ∀ {p : Nat}, Boundary code p → p < code.length → p < q → p + 1 + pushSize (code.getD p 0) ≤ q := by
  induction bq with
  | zero => intro p _ _ below; omega
  | @next q' _ _ ih =>
    intro p bp inCode below
    rcases Nat.lt_trichotomy p q' with earlier | same | later
    · have := ih bp inCode earlier
      omega
    · subst same
      exact Nat.le_refl _
    · exfalso
      have inside : ∀ {r : Nat}, Boundary code r → q' < r → r < q' + 1 + pushSize (code.getD q' 0) → False := by
        intro r br
        induction br with
        | zero => intro after _; omega
        | @next r' br' inCodeR ihR =>
          intro after before
          rcases Nat.lt_trichotomy r' q' with earlierR | sameR | laterR
          · have := ih br' inCodeR earlierR
            omega
          · subst sameR
            omega
          · exact ihR laterR (by omega)
      exact inside bp later below

theorem boundary_or_pushData : ∀ {i : Nat}, i < code.length → Boundary code i ∨ PushData code i
  | 0, _ => .inl .zero
  | i + 1, inCode => by
    rcases boundary_or_pushData (i := i) (by omega) with bi | ⟨p, bp, inCodeP, after, within⟩
    · by_cases plain : pushSize (code.getD i 0) = 0
      · have next := Boundary.next bi (by omega)
        rw [plain, Nat.add_zero] at next
        exact .inl next
      · exact .inr ⟨i, bi, by omega, by omega, by omega⟩
    · by_cases more : i + 1 ≤ p + pushSize (code.getD p 0)
      · exact .inr ⟨p, bp, inCodeP, by omega, more⟩
      · have next := Boundary.next bp inCodeP
        rw [show p + 1 + pushSize (code.getD p 0) = i + 1 by omega] at next
        exact .inl next

theorem not_boundary_of_pushData {i : Nat} (data : PushData code i) : ¬ Boundary code i := by
  obtain ⟨p, bp, inCodeP, after, within⟩ := data
  intro bi
  have := no_boundary_inside bi bp inCodeP after
  omega

/-- Inside the code, the boundaries are the positions that hold no PUSH data. -/
theorem boundary_iff_not_pushData {i : Nat} (inCode : i < code.length) : Boundary code i ↔ ¬ PushData code i :=
  ⟨fun bi data => not_boundary_of_pushData data bi, fun notData => (boundary_or_pushData inCode).resolve_right notData⟩

end Boundaries

/-! ## The outer loop -/

/-- What the outer loop of `codeBitmap` keeps at `pc`: `pc` is a boundary, the vector keeps
its length, and it marks exactly the data of the PUSHes at the boundaries before `pc`. -/
structure BitmapInv (code bits : List UInt8) (pc : Nat) : Prop where
  boundary : Boundary code pc
  length : bits.length = code.length / 8 + 5
  marks : ∀ i, codeSegment bits i = true ↔
    ¬ ∃ p, Boundary code p ∧ p < pc ∧ p < code.length ∧ p < i ∧ i ≤ p + pushSize (code.getD p 0)

theorem bitmapInv_start (code : List UInt8) : BitmapInv code (List.replicate (code.length / 8 + 1 + 4) 0) 0 where
  boundary := .zero
  length := List.length_replicate
  marks i := ⟨fun _ ⟨_, _, below, _⟩ => Nat.not_lt_zero _ below, fun _ => codeSegment_replicate _ i⟩

section Step

variable {code bits : List UInt8} {pc : Nat}

theorem pushSize_of_push {op : UInt8} (push : op ≥ push1 ∧ op ≤ push32) : pushSize op = (op - push1 + 1).toNat :=
  if_pos push

theorem pushSize_le (op : UInt8) : pushSize op ≤ 32 := by
  unfold pushSize
  split
  · next push =>
    obtain ⟨low, high⟩ := push
    rw [ge_iff_le, UInt8.le_iff_toNat_le] at low
    rw [UInt8.le_iff_toNat_le] at high
    rw [UInt8.toNat_add, UInt8.toNat_sub_of_le _ _ (UInt8.le_iff_toNat_le.mpr low)]
    simp only [push1, push32, UInt8.reduceToNat] at low high ⊢
    omega
  · exact Nat.zero_le _

/-- An opcode other than a PUSH: the loop moves on by one and marks nothing. -/
theorem BitmapInv.plain (inv : BitmapInv code bits pc) (inCode : pc < code.length)
    (plain : ¬ (code.getD pc 0 ≥ push1 ∧ code.getD pc 0 ≤ push32)) : BitmapInv code bits (pc + 1) where
  boundary := by
    have next := Boundary.next inv.boundary inCode
    rwa [pushSize, if_neg plain, Nat.add_zero] at next
  length := inv.length
  marks i := by
    rw [inv.marks]
    refine not_congr ⟨fun ⟨p, bp, below, rest⟩ => ⟨p, bp, by omega, rest⟩, fun ⟨p, bp, below, inCodeP, after, within⟩ => ?_⟩
    by_cases same : p = pc
    · subst same
      rw [pushSize, if_neg plain] at within
      omega
    · exact ⟨p, bp, by omega, inCodeP, after, within⟩

/-- A PUSH of `k` bytes: the inner loops mark the `k` bytes after it and the loop moves on
past them; the boundary after `pc` is the next, so the data marked are those of the
boundaries before it. -/
theorem BitmapInv.push (inv : BitmapInv code bits pc) (inCode : pc < code.length)
    (push : code.getD pc 0 ≥ push1 ∧ code.getD pc 0 ≤ push32) :
    ∃ bits₁ pc₁ numbits bits', setEights bits (pc + 1) (code.getD pc 0 - push1 + 1).toNat = some (bits₁, pc₁, numbits) ∧
      setOnes bits₁ pc₁ numbits = some (bits', pc + 1 + pushSize (code.getD pc 0)) ∧
      BitmapInv code bits' (pc + 1 + pushSize (code.getD pc 0)) := by
  have size := pushSize_of_push push
  have few := pushSize_le (code.getD pc 0)
  rw [size] at few
  generalize (code.getD pc 0 - push1 + 1).toNat = k at size few
  have length := inv.length
  obtain ⟨bits₁, eights, length₁, marks₁⟩ := setEights_spec bits (pc + 1) k (by omega)
  obtain ⟨bits', ones, length', marks'⟩ := setOnes_spec bits₁ (pc + 1 + 8 * (k / 8)) (k % 8) (by omega)
  refine ⟨bits₁, _, _, bits', eights, ?_, ⟨?_, by omega, fun i => ?_⟩⟩
  · rw [ones, size]
    congr 2
    omega
  · exact Boundary.next inv.boundary inCode
  · rw [marks', marks₁, inv.marks, and_assoc, size]
    refine ⟨fun ⟨notBefore, notEights, notOnes⟩ ⟨p, bp, below, inCodeP, after, within⟩ => ?_,
      fun notAny => ⟨fun ⟨p, bp, below, rest⟩ => notAny ⟨p, bp, by omega, rest⟩, ?_, ?_⟩⟩
    · rcases Nat.lt_or_ge p pc with earlier | later
      · exact notBefore ⟨p, bp, earlier, inCodeP, after, within⟩
      · by_cases same : p = pc
        · subst same
          rw [size] at within
          omega
        · -- a boundary inside the PUSH at `pc` is none
          have := no_boundary_inside bp inv.boundary inCode (by omega)
          omega
    · intro inside
      exact notAny ⟨pc, inv.boundary, by omega, inCode, by omega, by rw [size]; omega⟩
    · intro inside
      exact notAny ⟨pc, inv.boundary, by omega, inCode, by omega, by rw [size]; omega⟩

end Step

/-- The outer loop from a state that keeps `BitmapInv`, with more fuel than positions left:
it returns a vector of `len(code) / 8 + 5` bytes that marks exactly the PUSH data of the
code. The induction is on the fuel, one step of the loop at a time. -/
theorem codeBitmapLoop_spec (code : List UInt8) :
    ∀ (fuel : Nat) (bits : List UInt8) (pc : Nat), BitmapInv code bits pc → code.length - pc < fuel →
      ∃ bits', codeBitmapLoop code fuel bits pc = some bits' ∧ bits'.length = code.length / 8 + 5 ∧
        ∀ i, codeSegment bits' i = true ↔ ¬ PushData code i := by
  intro fuel
  induction fuel with
  | zero => intro _ _ _ enough; omega
  | succ fuel ih =>
    intro bits pc inv enough
    by_cases inCode : pc < code.length
    · by_cases push : code.getD pc 0 ≥ push1 ∧ code.getD pc 0 ≤ push32
      · obtain ⟨bits₁, pc₁, numbits, bits', eights, ones, inv'⟩ := inv.push inCode push
        obtain ⟨result, ran, length, marks⟩ := ih bits' _ inv' (by omega)
        refine ⟨result, ?_, length, marks⟩
        rw [codeBitmapLoop, if_pos inCode]
        dsimp only
        rw [if_pos push, eights]
        dsimp only
        rw [ones]
        exact ran
      · obtain ⟨result, ran, length, marks⟩ := ih bits (pc + 1) (inv.plain inCode push) (by omega)
        refine ⟨result, ?_, length, marks⟩
        rw [codeBitmapLoop, if_pos inCode]
        dsimp only
        rw [if_neg push]
        exact ran
    · -- the loop ends: every boundary in the code lies before `pc`
      refine ⟨bits, by rw [codeBitmapLoop, if_neg inCode], inv.length, fun i => ?_⟩
      rw [inv.marks]
      exact not_congr ⟨fun ⟨p, bp, _, rest⟩ => ⟨p, bp, rest⟩,
        fun ⟨p, bp, inCodeP, rest⟩ => ⟨p, bp, by omega, inCodeP, rest⟩⟩

/-- `codeBitmap` writes only inside the `len(code) / 8 + 5` bytes it allocates, and its
vector marks exactly the PUSH data of the code. -/
theorem codeBitmap_spec (code : List UInt8) :
    ∃ bits, codeBitmap code = some bits ∧ bits.length = code.length / 8 + 5 ∧
      ∀ i, codeSegment bits i = true ↔ ¬ PushData code i :=
  codeBitmapLoop_spec code (code.length + 1) _ 0 (bitmapInv_start code) (by omega)

/-! ## `has` -/

/-- For a code of at most `2 ^ 62` bytes and a map in which the code's hash is not yet
analysed or holds the code's vector (a Go slice holds far fewer bytes; from `2 ^ 62` on,
`has` turns a destination down by its bit length alone): `has` answers whether `dest` lies in the code, holds
`JUMPDEST` and is an instruction boundary, leaves the code's hash unanalysed or holding
the code's vector and every other hash as it was; and `codeBitmap` writes only inside the
`len(code) / 8 + 5` bytes it allocates. -/
theorem has_iff_jumpdest_boundary {Hash : Type} [DecidableEq Hash] (d : Hash → Option (List UInt8))
    (codehash : Hash) (code : List UInt8) (dest : Nat) (short : code.length ≤ 2 ^ 62)
    (analysed : d codehash = none ∨ d codehash = codeBitmap code) :
    (∃ bits, codeBitmap code = some bits ∧ bits.length = code.length / 8 + 5) ∧
      ∃ found d', has d codehash code dest = some (found, d') ∧
        (found = true ↔ dest < code.length ∧ code.getD dest 0 = jumpdestOp ∧ Boundary code dest) ∧
        (d' codehash = none ∨ d' codehash = codeBitmap code) ∧ ∀ h, h ≠ codehash → d' h = d h := by
  obtain ⟨bits, built, length, marks⟩ := codeBitmap_spec code
  refine ⟨⟨bits, built, length⟩, ?_⟩
  by_cases inCode : dest < code.length
  · -- a destination in the code passes the range checks and reads the code's vector
    have narrow : ¬ dest.size ≥ 63 := by
      have := Nat.size_le.mpr (show dest < 2 ^ 62 by omega)
      omega
    have low : dest.toUInt64.toNat = dest := by rw [UInt64.toNat_ofNat', Nat.mod_eq_of_lt (by omega)]
    have answer : (code.getD dest 0 == jumpdestOp && codeSegment bits dest) = true ↔
        dest < code.length ∧ code.getD dest 0 = jumpdestOp ∧ Boundary code dest := by
      rw [Bool.and_eq_true, beq_iff_eq, marks, boundary_iff_not_pushData inCode]
      exact ⟨fun ⟨op, notData⟩ => ⟨inCode, op, notData⟩, fun ⟨_, op, notData⟩ => ⟨op, notData⟩⟩
    have checks : ¬ (dest.size ≥ 63 ∨ dest.toUInt64.toNat ≥ code.length) := by
      rw [low]
      omega
    rcases analysed with fresh | cached
    · refine ⟨_, Function.update d codehash (some bits), ?_, answer,
        .inr (by rw [Function.update_self, built]), fun h other => Function.update_of_ne other _ _⟩
      unfold has
      rw [if_neg checks, fresh, built, low]
    · refine ⟨_, d, ?_, answer, .inr cached, fun _ _ => rfl⟩
      unfold has
      rw [if_neg checks, cached, built, low]
  · -- past the end, whatever its width, the answer is no and nothing is analysed
    refine ⟨false, d, ?_, ⟨fun no => absurd no Bool.false_ne_true, fun ⟨inside, _⟩ => absurd inside inCode⟩, analysed,
      fun _ _ => rfl⟩
    unfold has
    rw [if_pos]
    by_cases wide : dest.size ≥ 63
    · exact .inl wide
    · have fits := Nat.size_le.mp (show dest.size ≤ 64 by omega)
      right
      rw [UInt64.toNat_ofNat', Nat.mod_eq_of_lt fits]
      omega

/-- `PUSH1 0x5b JUMPDEST`: the byte after the PUSH holds `JUMPDEST` but is data, the last
is a jump destination. -/
theorem has_after_push_data :
    [(0x60 : UInt8), 0x5b, 0x5b].length ≤ 2 ^ 62 ∧
      ((fun _ : Unit => (none : Option (List UInt8))) () = none ∨
        (fun _ : Unit => (none : Option (List UInt8))) () = codeBitmap [0x60, 0x5b, 0x5b]) ∧
      (has (fun _ : Unit => none) () [0x60, 0x5b, 0x5b] 1).map Prod.fst = some false ∧
      (has (fun _ : Unit => none) () [0x60, 0x5b, 0x5b] 2).map Prod.fst = some true ∧
      ∃ found d', has (fun _ : Unit => none) () [0x60, 0x5b, 0x5b] 2 = some (found, d') ∧
        (found = true ↔ 2 < [(0x60 : UInt8), 0x5b, 0x5b].length ∧ [(0x60 : UInt8), 0x5b, 0x5b].getD 2 0 = jumpdestOp ∧
          Boundary [0x60, 0x5b, 0x5b] 2) ∧
        (d' () = none ∨ d' () = codeBitmap [0x60, 0x5b, 0x5b]) ∧ ∀ h, h ≠ () → d' h = none :=
  ⟨by decide, .inl rfl, by decide, by decide,
    (has_iff_jumpdest_boundary (fun _ : Unit => none) () [0x60, 0x5b, 0x5b] 2 (by decide) (.inl rfl)).2⟩

end TomoChain.Vm
