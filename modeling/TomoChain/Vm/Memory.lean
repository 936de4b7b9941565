import Mathlib

set_option autoImplicit false

/-! The gas of memory expansion, from `core/vm/gas_table.go` (`memoryGasCost`),
`core/vm/common.go` (`toWordSize`, `bigUint64`), `common/math/integer.go` (`SafeMul`,
`SafeAdd`), `core/vm/memory.go` (`Resize`) and the sizing of memory in `Interpreter.Run`.
The gas of `w` words of memory is `memoryCost w = 3 w + w² / 512`; a memory keeps in
`lastGasCost` what it has paid so far, and each expansion charges the difference.

All of it is computed in `uint64`. The guard `newMemSize > 0xffffffffe0` admits word
counts up to `2 ^ 35 - 1`, but the square of a word count of `2 ^ 32` or more does not fit
in 64 bits: below that boundary the charge is exact, and the gas of a run depends only
on the largest memory it asks for; from the boundary on the square wraps and the
charge is wrong. -/
namespace TomoChain.Vm

/-- `math.MaxUint64`. -/
def maxUint64 : UInt64 := 0xffffffffffffffff

/-- `params.MemoryGas`. -/
def memoryGas : UInt64 := 3

/-- `params.QuadCoeffDiv`. -/
def quadCoeffDiv : UInt64 := 512

/-- The errors of the sizing of memory. -/
inductive VmError
  | gasUintOverflow
  | outOfGas
  deriving DecidableEq, Repr

/-- `Memory`: the length of `store` (what `Len` returns), and `lastGasCost`. The contents
of the store play no part in its gas. -/
structure Memory where
  len : UInt64
  lastGasCost : UInt64
  deriving DecidableEq, Repr

/-- `NewMemory`. -/
def Memory.new : Memory := ⟨0, 0⟩

/-- `Memory.Resize`: the store grows with zero bytes up to `size`. -/
def Memory.resize (m : Memory) (size : UInt64) : Memory :=
  if m.len < size then { m with len := size } else m

/-- `toWordSize`: the number of 32-byte words that hold `size` bytes. -/
def toWordSize (size : UInt64) : UInt64 :=
  if size > maxUint64 - 31 then maxUint64 / 32 + 1 else (size + 31) / 32

/-- `math.SafeMul`: the wrapped product and whether it overflowed. -/
def safeMul (x y : UInt64) : UInt64 × Bool :=
  if x = 0 ∨ y = 0 then (0, false) else (x * y, y > maxUint64 / x)

/-- `math.SafeAdd`. -/
def safeAdd (x y : UInt64) : UInt64 × Bool := (x + y, y > maxUint64 - x)

/-- `bigUint64`: the low 64 bits of a size and whether it needs more. -/
def bigUint64 (v : Nat) : UInt64 × Bool := (v.toUInt64, v.size > 64)

/-- `memoryGasCost`: the gas of expanding `mem` to `newMemSize` bytes, rounded up to words,
with the new total recorded in `lastGasCost`. -/
def memoryGasCost (mem : Memory) (newMemSize : UInt64) : Except VmError (UInt64 × Memory) :=
  if newMemSize = 0 then .ok (0, mem)
  -- the guard of the source: the highest size whose gas is meant not to overflow
  else if newMemSize > 0xffffffffe0 then .error .gasUintOverflow
  else
    let newMemSizeWords := toWordSize newMemSize
    let newMemSize := newMemSizeWords * 32
    if newMemSize > mem.len then
      let square := newMemSizeWords * newMemSizeWords
      let linCoef := newMemSizeWords * memoryGas
      let quadCoef := square / quadCoeffDiv
      let newTotalFee := linCoef + quadCoef
      let fee := newTotalFee - mem.lastGasCost
      .ok (fee, { mem with lastGasCost := newTotalFee })
    else .ok (0, mem)

/-- The gas functions of the memory operations: `memoryGasCost` and the operation's own
gas added with `SafeAdd`, as `gasMLoad`, `gasMStore` and `gasMStore8` do (`gasReturn` and
`gasRevert` are the case `extra = 0`). -/
def memoryOpGas (extra : UInt64) (mem : Memory) (memorySize : UInt64) : Except VmError (UInt64 × Memory) :=
  match memoryGasCost mem memorySize with
  | .error _ => .error .gasUintOverflow
  | .ok (gas, mem) =>
    let (gas, overflow) := safeAdd gas extra
    if overflow then .error .gasUintOverflow else .ok (gas, mem)

/-- An operation as the memory part of `Run` sees it: the size its `memorySize` function
computes from the stack, and the gas its gas function adds to the memory gas. -/
structure MemoryOp where
  memSize : Nat
  gas : UInt64
  deriving DecidableEq, Repr

/-- The memory and the gas left of a contract's run. -/
structure Frame where
  mem : Memory
  gas : UInt64
  deriving DecidableEq, Repr

/-- The memory part of one step of `Interpreter.Run`: the size is taken to 64 bits and
rounded up to words, the gas function charges through `UseGas`, and the memory is
resized when the size is positive. Every error of the gas function or of `UseGas` is
`ErrOutOfGas`. Returns the gas charged. -/
def memoryStep (frame : Frame) (op : MemoryOp) : Except VmError (UInt64 × Frame) :=
  let (memSize, overflow) := bigUint64 op.memSize
  if overflow then .error .gasUintOverflow
  else
    let (memorySize, overflow) := safeMul (toWordSize memSize) 32
    if overflow then .error .gasUintOverflow
    else
      match memoryOpGas op.gas frame.mem memorySize with
      | .error _ => .error .outOfGas
      | .ok (cost, mem) =>
        if frame.gas < cost then .error .outOfGas
        else .ok (cost, ⟨if memorySize > 0 then mem.resize memorySize else mem, frame.gas - cost⟩)

/-- The steps of one run, from a frame; returns the total gas charged. -/
def memoryRun (frame : Frame) : List MemoryOp → Except VmError (Nat × Frame)
  | [] => .ok (0, frame)
  | op :: ops =>
    match memoryStep frame op with
    | .error err => .error err
    | .ok (cost, frame) =>
      match memoryRun frame ops with
      | .error err => .error err
      | .ok (total, frame) => .ok (cost.toNat + total, frame)

/-! ## The gas of memory as the Yellow Paper has it -/

/-- `C_mem`: the gas of `w` words of memory, over unbounded numbers. -/
def memoryCost (w : Nat) : Nat := 3 * w + w * w / 512

/-- The words that hold `size` bytes. -/
def wordCount (size : Nat) : Nat := (size + 31) / 32

/-- The largest memory, in words, asked for by a run that starts from `w` words. -/
def peakWords (w : Nat) (ops : List MemoryOp) : Nat :=
  ops.foldl (fun w op => max w (wordCount op.memSize)) w

/-- The memory of `w` words whose gas has been paid. -/
def Memory.paid (w : Nat) : Memory := ⟨(32 * w).toUInt64, (memoryCost w).toUInt64⟩

/-- What `memoryGasCost` and `Run` assume of a memory: its length is `w` words and its
`lastGasCost` is their gas. -/
def Memory.Paid (m : Memory) (w : Nat) : Prop :=
  m.len.toNat = 32 * w ∧ m.lastGasCost.toNat = memoryCost w

/-- A run from `w` paid words as it should be: it charges the gas of the largest memory
asked for, less what was paid, and the operations' own gas, and fails when the gas does
not reach that. -/
def paidRun (w : Nat) (gas : UInt64) (ops : List MemoryOp) : Except VmError (Nat × Frame) :=
  let charge := memoryCost (peakWords w ops) - memoryCost w + (ops.map fun op => op.gas.toNat).sum
  if charge ≤ gas.toNat then .ok (charge, ⟨Memory.paid (peakWords w ops), gas - charge.toUInt64⟩)
  else .error .outOfGas

/-- What the code computes in place of `memoryCost`: the square taken modulo `2 ^ 64`. -/
def wrappedCost (w : Nat) : Nat := 3 * w + w * w % 2 ^ 64 / 512

theorem memoryCost_mono {a b : Nat} (le : a ≤ b) : memoryCost a ≤ memoryCost b := by
  have square : a * a ≤ b * b := Nat.mul_self_le_mul_self le
  unfold memoryCost
  have quad : a * a / 512 ≤ b * b / 512 := Nat.div_le_div_right square
  omega

theorem wrappedCost_of_lt {w : Nat} (small : w < 2 ^ 32) : wrappedCost w = memoryCost w := by
  have square : w * w < 2 ^ 64 := by
    calc w * w < 2 ^ 32 * 2 ^ 32 := Nat.mul_self_lt_mul_self small
      _ = 2 ^ 64 := (Nat.pow_add 2 32 32).symm
  rw [wrappedCost, memoryCost, Nat.mod_eq_of_lt square]

theorem peakWords_cons (w : Nat) (op : MemoryOp) (ops : List MemoryOp) :
    peakWords w (op :: ops) = peakWords (max w (wordCount op.memSize)) ops := rfl

theorem le_peakWords : ∀ (w : Nat) (ops : List MemoryOp), w ≤ peakWords w ops
  | _, [] => Nat.le_refl _
  | w, _ :: ops => Nat.le_trans (Nat.le_max_left w _) (le_peakWords _ ops)

theorem peakWords_lt {bound : Nat} :
    ∀ {w : Nat} {ops : List MemoryOp}, w < bound → (∀ op ∈ ops, wordCount op.memSize < bound) →
      peakWords w ops < bound
  | _, [], small, _ => small
  | _, op :: ops, small, each => by
    rw [peakWords_cons]
    exact peakWords_lt (Nat.max_lt.mpr ⟨small, each op List.mem_cons_self⟩)
      (fun op' listed => each op' (List.mem_cons_of_mem op listed))

/-- The largest memory asked for does not depend on the order of the requests. -/
theorem peakWords_perm {ops ops' : List MemoryOp} (reordered : ops'.Perm ops) (w : Nat) :
    peakWords w ops' = peakWords w ops :=
  reordered.foldl_eq' (fun _ _ _ _ _ => by omega) w

theorem memoryCost_lt {w : Nat} (small : w < 2 ^ 32) : memoryCost w < 2 ^ 64 :=
  calc memoryCost w ≤ memoryCost (2 ^ 32) := memoryCost_mono (Nat.le_of_lt small)
    _ < 2 ^ 64 := by decide

theorem paid_paid {w : Nat} (small : w < 2 ^ 32) : (Memory.paid w).Paid w := by
  refine ⟨?_, ?_⟩
  · rw [Memory.paid, UInt64.toNat_ofNat', Nat.mod_eq_of_lt (by omega)]
  · rw [Memory.paid, UInt64.toNat_ofNat', Nat.mod_eq_of_lt (memoryCost_lt small)]

/-! ## The arithmetic of the code -/

theorem bigUint64_of_lt {v : Nat} (small : v < 2 ^ 64) : bigUint64 v = (v.toUInt64, false) := by
  have fits : v.size ≤ 64 := Nat.size_le.mpr small
  simp only [bigUint64, gt_iff_lt, Prod.mk.injEq, true_and, decide_eq_false_iff_not, Nat.not_lt]
  exact fits

theorem toWordSize_toNat {size : UInt64} (admitted : size.toNat ≤ 0xffffffffe0) :
    (toWordSize size).toNat = wordCount size.toNat := by
  have inRange : ¬ size > maxUint64 - 31 := by
    rw [gt_iff_lt, UInt64.lt_iff_toNat_lt, show (maxUint64 - 31).toNat = 2 ^ 64 - 32 from rfl]
    omega
  rw [toWordSize, if_neg inRange, UInt64.toNat_div, UInt64.toNat_add]
  simp only [UInt64.reduceToNat, wordCount]
  rw [Nat.mod_eq_of_lt (by omega)]

/-- `SafeMul` by 32 of a word count whose bytes fit in 64 bits. -/
theorem safeMul_words {x : UInt64} (small : x.toNat < 2 ^ 59) : safeMul x 32 = (x * 32, false) := by
  unfold safeMul
  split
  · next zero =>
    have : x = 0 := by simpa using zero
    rw [this]
    rfl
  · next nonzero =>
    have pos : 0 < x.toNat := by
      have : x ≠ 0 := fun same => nonzero (.inl same)
      exact Nat.pos_of_ne_zero (fun same => this (UInt64.toNat_inj.mp same))
    have quotient : (maxUint64 / x).toNat = (2 ^ 64 - 1) / x.toNat := by
      rw [UInt64.toNat_div]
      rfl
    have fits : 32 ≤ (2 ^ 64 - 1) / x.toNat := (Nat.le_div_iff_mul_le pos).mpr (by omega)
    simp only [gt_iff_lt, UInt64.lt_iff_toNat_lt, quotient, Prod.mk.injEq, true_and, decide_eq_false_iff_not,
      Nat.not_lt]
    exact fits

theorem safeAdd_overflow (x y : UInt64) : (safeAdd x y).2 = true ↔ 2 ^ 64 ≤ x.toNat + y.toNat := by
  have room : (maxUint64 - x).toNat = 2 ^ 64 - 1 - x.toNat :=
    UInt64.toNat_sub_of_le _ _ (UInt64.le_iff_toNat_le.mpr (Nat.le_pred_of_lt (UInt64.toNat_lt x)))
  have below := UInt64.toNat_lt x
  simp only [safeAdd, gt_iff_lt, decide_eq_true_eq, UInt64.lt_iff_toNat_lt, room]
  omega

theorem safeAdd_toNat {x y : UInt64} (fits : x.toNat + y.toNat < 2 ^ 64) : (safeAdd x y).1.toNat = x.toNat + y.toNat := by
  rw [safeAdd, UInt64.toNat_add, Nat.mod_eq_of_lt fits]

theorem toNat_toUInt64_of_lt {n : Nat} (small : n < 2 ^ 64) : n.toUInt64.toNat = n := by
  rw [UInt64.toNat_ofNat', Nat.mod_eq_of_lt small]

/-- `memoryGasCost` on a size the guard admits, in numbers: the total is `wrappedCost` of
the words, the fee its difference from `lastGasCost` modulo `2 ^ 64`. -/
theorem memoryGasCost_admitted (m : Memory) {newMemSize : UInt64} (pos : newMemSize ≠ 0)
    (admitted : newMemSize.toNat ≤ 0xffffffffe0) :
    memoryGasCost m newMemSize =
      if m.len.toNat < 32 * wordCount newMemSize.toNat then
        .ok ((wrappedCost (wordCount newMemSize.toNat)).toUInt64 - m.lastGasCost,
          { m with lastGasCost := (wrappedCost (wordCount newMemSize.toNat)).toUInt64 })
      else .ok (0, m) := by
  have words := toWordSize_toNat admitted
  have few : wordCount newMemSize.toNat < 2 ^ 35 := by unfold wordCount; omega
  have notOver : ¬ newMemSize > 0xffffffffe0 := by
    rw [gt_iff_lt, UInt64.lt_iff_toNat_lt]
    exact Nat.not_lt.mpr admitted
  have bytes : (toWordSize newMemSize * 32).toNat = 32 * wordCount newMemSize.toNat := by
    rw [UInt64.toNat_mul, words, show (32 : UInt64).toNat = 32 from rfl, Nat.mod_eq_of_lt (by omega), Nat.mul_comm]
  -- the total fee as the code computes it: three per word, and the square modulo 2 ^ 64
  have total : toWordSize newMemSize * memoryGas + toWordSize newMemSize * toWordSize newMemSize / quadCoeffDiv =
      (wrappedCost (wordCount newMemSize.toNat)).toUInt64 := by
    apply UInt64.toNat_inj.mp
    generalize wordCount newMemSize.toNat = ws at words few
    have square : ws * ws % 2 ^ 64 / 512 < 2 ^ 55 := by omega
    rw [UInt64.toNat_add, UInt64.toNat_mul, UInt64.toNat_div, UInt64.toNat_mul, words]
    simp only [memoryGas, quadCoeffDiv, UInt64.reduceToNat, wrappedCost, toNat_toUInt64_of_lt (by omega : 3 * ws + ws * ws % 2 ^ 64 / 512 < 2 ^ 64)]
    omega
  rw [memoryGasCost, if_neg pos, if_neg notOver]
  simp only [gt_iff_lt, UInt64.lt_iff_toNat_lt, bytes, total]

/-! ## Exactness below `2 ^ 32` words, and the wrap above -/

theorem toNat_words {ws : Nat} (admitted : 32 * ws ≤ 0xffffffffe0) :
    (32 * ws).toUInt64.toNat = 32 * ws ∧ wordCount (32 * ws) = ws := by
  refine ⟨toNat_toUInt64_of_lt (by omega), ?_⟩
  unfold wordCount
  omega

theorem words_ne_zero {ws : Nat} (pos : 0 < ws) (admitted : 32 * ws ≤ 0xffffffffe0) : (32 * ws).toUInt64 ≠ 0 := by
  intro zero
  have bytes := (toNat_words admitted).1
  rw [zero, UInt64.toNat_zero] at bytes
  omega

/-- On a paid memory and a word-aligned size of fewer than `2 ^ 32` words, `memoryGasCost`
charges exactly the gas of the words added, and nothing when there are none. -/
theorem memoryGasCost_exact {m : Memory} {w ws : Nat} (paid : m.Paid w) (small : ws < 2 ^ 32) :
    memoryGasCost m (32 * ws).toUInt64 =
      if w < ws then .ok ((memoryCost ws - memoryCost w).toUInt64, { m with lastGasCost := (memoryCost ws).toUInt64 })
      else .ok (0, m) := by
  obtain ⟨len, cost⟩ := paid
  rcases Nat.eq_zero_or_pos ws with rfl | pos
  · -- a size of zero takes the first branch of the code
    rw [if_neg (Nat.not_lt_zero w)]
    rfl
  · have admitted : 32 * ws ≤ 0xffffffffe0 := by omega
    obtain ⟨bytes, words⟩ := toNat_words admitted
    rw [memoryGasCost_admitted m (words_ne_zero pos admitted) (by rw [bytes]; exact admitted), bytes, words,
      wrappedCost_of_lt small, len]
    by_cases grows : w < ws
    · have total : (memoryCost ws).toUInt64.toNat = memoryCost ws := toNat_toUInt64_of_lt (memoryCost_lt small)
      have mono := memoryCost_mono (Nat.le_of_lt grows)
      have fee : (memoryCost ws).toUInt64 - m.lastGasCost = (memoryCost ws - memoryCost w).toUInt64 := by
        apply UInt64.toNat_inj.mp
        rw [UInt64.toNat_sub_of_le _ _ (UInt64.le_iff_toNat_le.mpr (by rw [total, cost]; exact mono)), total, cost,
          toNat_toUInt64_of_lt (by have := memoryCost_lt small; omega)]
      rw [if_pos (by omega), if_pos grows, fee]
    · rw [if_neg (by omega), if_neg grows]

/-- From `2 ^ 32` words on, within the sizes the guard admits, `memoryGasCost` on a paid
memory neither fails nor charges the gas of the words added: the square of the word
count wraps modulo `2 ^ 64`, and the charge is off by a multiple of `2 ^ 55`. -/
theorem memory_gas_square_wraps {m : Memory} {w ws : Nat} (paid : m.Paid w) (grows : w < ws)
    (wide : 2 ^ 32 ≤ ws) (admitted : 32 * ws ≤ 0xffffffffe0) :
    ∃ fee m', memoryGasCost m (32 * ws).toUInt64 = .ok (fee, m') ∧ fee.toNat ≠ memoryCost ws - memoryCost w := by
  obtain ⟨len, cost⟩ := paid
  obtain ⟨bytes, words⟩ := toNat_words admitted
  rw [memoryGasCost_admitted m (words_ne_zero (by omega) admitted) (by rw [bytes]; exact admitted), bytes, words,
    if_pos (by omega)]
  refine ⟨_, _, rfl, ?_⟩
  -- the square lies between 2 ^ 64 and 2 ^ 70
  have low : 2 ^ 64 ≤ ws * ws := by
    calc 2 ^ 64 = 2 ^ 32 * 2 ^ 32 := Nat.pow_add 2 32 32
      _ ≤ ws * ws := Nat.mul_le_mul wide wide
  have high : ws * ws < 2 ^ 70 := by
    calc ws * ws < 2 ^ 35 * 2 ^ 35 := Nat.mul_self_lt_mul_self (by omega)
      _ = 2 ^ 70 := (Nat.pow_add 2 35 35).symm
  have wrapped : wrappedCost ws < 2 ^ 64 := by unfold wrappedCost; omega
  have mono := memoryCost_mono (Nat.le_of_lt grows)
  have last := UInt64.toNat_lt m.lastGasCost
  rw [UInt64.toNat_sub, cost, toNat_toUInt64_of_lt wrapped]
  rw [cost] at last
  unfold wrappedCost memoryCost at *
  omega

/-- The failing input: expanding a new memory to `2 ^ 32` words charges `3 · 2 ^ 32` gas,
where the gas of those words is `3 · 2 ^ 32 + 2 ^ 55`. -/
theorem memory_gas_wraps_from_empty :
    Memory.new.Paid 0 ∧ (0 : Nat) < 2 ^ 32 ∧ 2 ^ 32 ≤ 2 ^ 32 ∧ 32 * 2 ^ 32 ≤ 0xffffffffe0 ∧
      memoryGasCost Memory.new (32 * 2 ^ 32).toUInt64 = .ok (0x300000000, ⟨0, 0x300000000⟩) ∧
      memoryCost (2 ^ 32) - memoryCost 0 = 0x300000000 + 2 ^ 55 ∧
      ∃ fee m', memoryGasCost Memory.new (32 * 2 ^ 32).toUInt64 = .ok (fee, m') ∧
        fee.toNat ≠ memoryCost (2 ^ 32) - memoryCost 0 :=
  ⟨⟨rfl, rfl⟩, by decide, Nat.le_refl _, by decide, rfl, by decide,
    memory_gas_square_wraps ⟨rfl, rfl⟩ (by decide) (Nat.le_refl _) (by decide)⟩

/-! ## A step and a run of `Run` -/

section Run

variable {w : Nat}

theorem memoryGasCost_paid (wSmall : w < 2 ^ 32) {ws : Nat} (small : ws < 2 ^ 32) :
    memoryGasCost (Memory.paid w) (32 * ws).toUInt64 =
      .ok ((memoryCost (max w ws) - memoryCost w).toUInt64,
        if w < ws then { Memory.paid w with lastGasCost := (memoryCost ws).toUInt64 } else Memory.paid w) := by
  rw [memoryGasCost_exact (paid_paid wSmall) small]
  split
  · next grows => rw [Nat.max_eq_right (Nat.le_of_lt grows)]
  · next stays => rw [Nat.max_eq_left (Nat.le_of_not_lt stays), Nat.sub_self]; rfl

/-- After the gas, `Run` resizes the memory to the words asked for, when there are any:
the memory is then paid at the larger word count. -/
theorem resized_paid (wSmall : w < 2 ^ 32) {ws : Nat} (small : ws < 2 ^ 32) :
    (if (32 * ws).toUInt64 > 0 then
        (if w < ws then { Memory.paid w with lastGasCost := (memoryCost ws).toUInt64 } else Memory.paid w).resize
          (32 * ws).toUInt64
      else if w < ws then { Memory.paid w with lastGasCost := (memoryCost ws).toUInt64 } else Memory.paid w) =
      Memory.paid (max w ws) := by
  have bytes : ∀ {v : Nat}, v < 2 ^ 32 → (32 * v).toUInt64.toNat = 32 * v := fun below => toNat_toUInt64_of_lt (by omega)
  by_cases grows : w < ws
  · have longer : (Memory.paid w).len < (32 * ws).toUInt64 := by
      rw [UInt64.lt_iff_toNat_lt, Memory.paid, bytes wSmall, bytes small]
      omega
    rw [if_pos (by rw [gt_iff_lt, UInt64.lt_iff_toNat_lt, bytes small]; simp; omega), if_pos grows, Memory.resize,
      if_pos longer, Nat.max_eq_right (Nat.le_of_lt grows)]
    rfl
  · have shorter : ¬ (Memory.paid w).len < (32 * ws).toUInt64 := by
      rw [UInt64.lt_iff_toNat_lt, Memory.paid, bytes wSmall, bytes small]
      omega
    rw [if_neg grows, Nat.max_eq_left (Nat.le_of_not_lt grows), Memory.resize, if_neg shorter, ite_self]

theorem memoryOpGas_ok {extra : UInt64} {mem mem' : Memory} {size fee : UInt64}
    (gasOk : memoryGasCost mem size = .ok (fee, mem')) :
    memoryOpGas extra mem size =
      if 2 ^ 64 ≤ fee.toNat + extra.toNat then .error .gasUintOverflow else .ok ((safeAdd fee extra).1, mem') := by
  have overflow := safeAdd_overflow fee extra
  unfold memoryOpGas
  rw [gasOk]
  dsimp only
  rcases sum : safeAdd fee extra with ⟨total, flag⟩
  rw [sum] at overflow
  cases flag with
  | true => rw [if_pos (overflow.mp rfl)]; rfl
  | false => rw [if_neg (fun wraps => Bool.false_ne_true (overflow.mpr wraps))]; rfl

/-- One step from a paid memory of fewer than `2 ^ 32` words, asking for at most
`2 ^ 37 - 32` bytes: it charges the gas of the words added and the operation's own when
the gas left reaches that, and fails with `ErrOutOfGas` when it does not; the memory is
then paid at the larger word count. -/
theorem memoryStep_paid (wSmall : w < 2 ^ 32) (gas : UInt64) {op : MemoryOp} (small : op.memSize ≤ 2 ^ 37 - 32) :
    memoryStep ⟨Memory.paid w, gas⟩ op =
      if memoryCost (max w (wordCount op.memSize)) - memoryCost w + op.gas.toNat ≤ gas.toNat then
        .ok ((memoryCost (max w (wordCount op.memSize)) - memoryCost w + op.gas.toNat).toUInt64,
          ⟨Memory.paid (max w (wordCount op.memSize)),
            gas - (memoryCost (max w (wordCount op.memSize)) - memoryCost w + op.gas.toNat).toUInt64⟩)
      else .error .outOfGas := by
  have wsSmall : wordCount op.memSize < 2 ^ 32 := by unfold wordCount; omega
  have fits : op.memSize < 2 ^ 64 := by omega
  -- the size in 64 bits, its words, and the words in bytes: no step overflows
  have words : (toWordSize op.memSize.toUInt64).toNat = wordCount op.memSize := by
    rw [toWordSize_toNat (by rw [toNat_toUInt64_of_lt fits]; omega), toNat_toUInt64_of_lt fits]
  have size : safeMul (toWordSize op.memSize.toUInt64) 32 = ((32 * wordCount op.memSize).toUInt64, false) := by
    rw [safeMul_words (by rw [words]; omega)]
    congr 1
    apply UInt64.toNat_inj.mp
    rw [UInt64.toNat_mul, words, toNat_toUInt64_of_lt (by omega), show (32 : UInt64).toNat = 32 from rfl]
    omega
  rw [memoryStep, bigUint64_of_lt fits]
  dsimp only
  rw [if_neg Bool.false_ne_true, size]
  dsimp only
  rw [if_neg Bool.false_ne_true]
  generalize wordCount op.memSize = ws at wsSmall ⊢
  have feeSmall : memoryCost (max w ws) - memoryCost w < 2 ^ 64 := by
    have := memoryCost_lt (Nat.max_lt.mpr ⟨wSmall, wsSmall⟩)
    omega
  have feeNat := toNat_toUInt64_of_lt feeSmall
  have gasBelow := UInt64.toNat_lt gas
  rw [memoryOpGas_ok (memoryGasCost_paid wSmall wsSmall)]
  by_cases wraps : 2 ^ 64 ≤ (memoryCost (max w ws) - memoryCost w).toUInt64.toNat + op.gas.toNat
  · -- the gas function overflows only where the gas left could not pay
    rw [if_pos wraps, if_neg (by omega)]
  · rw [if_neg wraps]
    dsimp only
    have cost : (safeAdd (memoryCost (max w ws) - memoryCost w).toUInt64 op.gas).1 =
        (memoryCost (max w ws) - memoryCost w + op.gas.toNat).toUInt64 := by
      apply UInt64.toNat_inj.mp
      rw [safeAdd_toNat (by omega), feeNat, toNat_toUInt64_of_lt (by omega)]
    rw [cost]
    by_cases enough : memoryCost (max w ws) - memoryCost w + op.gas.toNat ≤ gas.toNat
    · rw [if_neg (by rw [UInt64.lt_iff_toNat_lt, toNat_toUInt64_of_lt (by omega)]; omega), if_pos enough,
        resized_paid wSmall wsSmall]
    · rw [if_pos (by rw [UInt64.lt_iff_toNat_lt, toNat_toUInt64_of_lt (by omega)]; omega), if_neg enough]

/-- Two charges taken one after the other are their sum taken at once. -/
theorem sub_sub_toUInt64 (gas : UInt64) (a b : Nat) : gas - a.toUInt64 - b.toUInt64 = gas - (a + b).toUInt64 := by
  apply UInt64.toNat_inj.mp
  simp only [UInt64.toNat_sub, UInt64.toNat_ofNat']
  omega

/-- A run from a paid memory of fewer than `2 ^ 32` words, of operations that ask for at
most `2 ^ 37 - 32` bytes each, is `paidRun`. The induction is on the operations; the paid
word count grows from each step to the next, and the charges of the steps add up to the
gas of the peak. -/
theorem memoryRun_paid (ops : List MemoryOp) (small : ∀ op ∈ ops, op.memSize ≤ 2 ^ 37 - 32) :
    ∀ {w : Nat} (gas : UInt64), w < 2 ^ 32 → memoryRun ⟨Memory.paid w, gas⟩ ops = paidRun w gas ops := by
  induction ops with
  | nil =>
    intro w gas _
    simp only [memoryRun, paidRun, peakWords, List.foldl_nil, Nat.sub_self, List.map_nil, List.sum_nil,
      Nat.add_zero, Nat.zero_le, if_true]
    rw [show (0 : Nat).toUInt64 = 0 from rfl, UInt64.sub_zero]
  | cons op ops ih =>
    intro w gas wSmall
    have opSmall := small op List.mem_cons_self
    have peakSmall : max w (wordCount op.memSize) < 2 ^ 32 :=
      Nat.max_lt.mpr ⟨wSmall, by unfold wordCount; omega⟩
    have grows := memoryCost_mono (Nat.le_max_left w (wordCount op.memSize))
    have later := memoryCost_mono (le_peakWords (max w (wordCount op.memSize)) ops)
    have stepSmall := memoryCost_lt peakSmall
    have below := UInt64.toNat_lt gas
    rw [memoryRun, memoryStep_paid wSmall gas opSmall, paidRun, peakWords_cons, List.map_cons, List.sum_cons]
    generalize max w (wordCount op.memSize) = w1 at peakSmall grows later stepSmall ⊢
    by_cases first : memoryCost w1 - memoryCost w + op.gas.toNat ≤ gas.toNat
    · rw [if_pos first]
      dsimp only
      rw [ih (fun op' listed => small op' (List.mem_cons_of_mem op listed)) _ peakSmall, paidRun]
      have left : (gas - (memoryCost w1 - memoryCost w + op.gas.toNat).toUInt64).toNat =
          gas.toNat - (memoryCost w1 - memoryCost w + op.gas.toNat) := by
        rw [UInt64.toNat_sub_of_le _ _ (UInt64.le_iff_toNat_le.mpr (by rw [toNat_toUInt64_of_lt (by omega)]; omega)),
          toNat_toUInt64_of_lt (by omega)]
      rw [left]
      by_cases rest : memoryCost (peakWords w1 ops) - memoryCost w1 + (ops.map fun op => op.gas.toNat).sum ≤
          gas.toNat - (memoryCost w1 - memoryCost w + op.gas.toNat)
      · rw [if_pos rest, if_pos (by omega)]
        dsimp only
        have total : memoryCost w1 - memoryCost w + op.gas.toNat +
            (memoryCost (peakWords w1 ops) - memoryCost w1 + (ops.map fun op => op.gas.toNat).sum) =
            memoryCost (peakWords w1 ops) - memoryCost w + (op.gas.toNat + (ops.map fun op => op.gas.toNat).sum) := by
          omega
        rw [toNat_toUInt64_of_lt (by omega), sub_sub_toUInt64, total]
      · rw [if_neg rest, if_neg (by omega)]
    · rw [if_neg first, if_neg (by omega)]

/-- Within one run from a new memory whose operations ask for at most `2 ^ 37 - 32` bytes
(fewer than `2 ^ 32` words) each: the run charges the gas of the largest memory asked for
and the operations' own gas and fails exactly when the gas does not reach that (`paidRun`),
and every reordering of the operations runs alike. -/
theorem memory_gas_path_independent (gas : UInt64) {ops ops' : List MemoryOp} (reordered : ops'.Perm ops)
    (small : ∀ op ∈ ops, op.memSize ≤ 2 ^ 37 - 32) :
    memoryRun ⟨Memory.new, gas⟩ ops = paidRun 0 gas ops ∧
      memoryRun ⟨Memory.new, gas⟩ ops' = memoryRun ⟨Memory.new, gas⟩ ops := by
  have fresh : Memory.new = Memory.paid 0 := rfl
  have small' : ∀ op ∈ ops', op.memSize ≤ 2 ^ 37 - 32 := fun op listed => small op (reordered.subset listed)
  have same : paidRun 0 gas ops' = paidRun 0 gas ops := by
    unfold paidRun
    rw [peakWords_perm reordered, (reordered.map _).sum_nat]
  rw [fresh, memoryRun_paid ops small gas (by decide), memoryRun_paid ops' small' gas (by decide), same]
  exact ⟨rfl, rfl⟩

/-- Three stores of one word each, at the third, the seventh and the first word: the run
charges the gas of seven words, `3 · 7 + 49 / 512 = 21`, and the three operations' `3`
each, in either order. -/
theorem memory_gas_of_three_stores :
    [⟨96, 3⟩, ⟨224, 3⟩, ⟨32, 3⟩].Perm [(⟨32, 3⟩ : MemoryOp), ⟨224, 3⟩, ⟨96, 3⟩] ∧
      (∀ op ∈ [(⟨32, 3⟩ : MemoryOp), ⟨224, 3⟩, ⟨96, 3⟩], op.memSize ≤ 2 ^ 37 - 32) ∧
      memoryRun ⟨Memory.new, 100⟩ [⟨32, 3⟩, ⟨224, 3⟩, ⟨96, 3⟩] = .ok (30, ⟨Memory.paid 7, 70⟩) ∧
      memoryRun ⟨Memory.new, 100⟩ [⟨96, 3⟩, ⟨224, 3⟩, ⟨32, 3⟩] =
        memoryRun ⟨Memory.new, 100⟩ [⟨32, 3⟩, ⟨224, 3⟩, ⟨96, 3⟩] :=
  ⟨by decide, by decide, by decide,
    (memory_gas_path_independent 100 (by decide) (by decide)).2⟩

end Run

end TomoChain.Vm
