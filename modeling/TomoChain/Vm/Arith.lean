import Mathlib

set_option autoImplicit false

/-! The arithmetic, comparison and bitwise opcodes, from `core/vm/instructions.go` and
`common/math/big.go`. The code works on `big.Int`s: a value at rest on the stack is a
non-negative integer below `2 ^ 256`, and an opcode computes with unbounded, possibly
negative integers before `math.U256` takes the result back to a word. Here a word at rest
is a `Nat`, the intermediate values are `Int`, and `big.Int`'s `Div` and `Mod` are
Euclidean, as `Int`'s `/` and `%` are. An opcode returns `none` when the stack holds fewer
operands than it takes, which `validateStack` turns down before it runs.

Against the Yellow Paper and EIP-145, `opSAR` with a shift of 256 or more fills a zero
value with ones: it tests `value.Sign() > 0` where the sign fill of zero is zero. -/
namespace TomoChain.Vm

/-- `tt255`. -/
def tt255 : Nat := 2 ^ 255

/-- `tt256`. -/
def tt256 : Nat := 2 ^ 256

/-- `math.U256`: `x & (2 ^ 256 - 1)`, which keeps the residue of the two's-complement
integer modulo `2 ^ 256`. -/
def u256 (x : Int) : Nat := (x % (tt256 : Int)).toNat

/-- `math.S256`: the word read as a two's-complement integer. -/
def s256 (x : Nat) : Int := if x < tt255 then x else (x : Int) - tt256

/-- `math.Exp`: for each 64-bit word of the exponent, from the lowest, 64 rounds that
multiply the result by the base for a set bit and square the base, both truncated. This
is the loop over `count` bits of the exponent. -/
def expLoop (base exponent : Nat) : Nat → Nat → Nat
  | 0, result => result
  | count + 1, result =>
    let result := if exponent % 2 = 1 then u256 (result * base) else result
    expLoop (u256 (base * base)) (exponent / 2) count result

/-- `math.Exp`, over the `64 * len(exponent.Bits())` bits of the exponent's words. -/
def mathExp (base exponent : Nat) : Nat := expLoop base exponent (64 * ((exponent.size + 63) / 64)) 1

/-- `math.Byte(bigint, 32, n)` through `bigEndianByteAt(bigint, 31 - n)`: byte `31 - n` from
the least significant, taken from its 64-bit word. -/
def mathByte (bigint n : Nat) : Nat :=
  let m := 31 - n
  (bigint >>> (64 * (m / 8))) % 2 ^ 64 >>> (8 * (m % 8)) % 2 ^ 8

/-- The arithmetic, comparison, bitwise and shift opcodes of `instructions.go`. -/
inductive ArithOp
  | add | sub | mul | div | sdiv | mod | smod | addmod | mulmod | exp | signextend
  | lt | gt | slt | sgt | eq | iszero | and | or | xor | not | byte | shl | shr | sar
  deriving DecidableEq, Repr

/-- The word of a comparison: `SetUint64(1)` or `SetUint64(0)`. -/
def bword (b : Bool) : Nat := if b then 1 else 0

/-- `opSdiv`: the quotient of the absolute values, negated when the signs differ. -/
def sdivWord (x y : Nat) : Nat :=
  let x := s256 x
  let y := s256 y
  if y = 0 ∨ x = 0 then 0
  else if (x < 0) ≠ (y < 0) then u256 (-((x.natAbs / y.natAbs : Nat) : Int))
  else u256 (x.natAbs / y.natAbs : Nat)

/-- `opSmod`: the remainder of the absolute values, negated for a negative dividend. -/
def smodWord (x y : Nat) : Nat :=
  let x := s256 x
  let y := s256 y
  if y = 0 then 0
  else if x < 0 then u256 (-((x.natAbs % y.natAbs : Nat) : Int))
  else u256 (x.natAbs % y.natAbs : Nat)

/-- `opSignExtend` for `back < 31`: the bit `8 back + 7` of `num` copied to every bit above. -/
def signExtendWord (back num : Nat) : Nat :=
  let bit := back * 8 + 7
  let mask : Int := 2 ^ bit - 1
  if num.testBit bit then u256 (Int.lor num (Int.lnot mask)) else u256 (Int.land num mask)

/-- `opSlt` and, with the arguments swapped, `opSgt`: the signs first, then the words. -/
def sltWord (x y : Nat) : Nat :=
  if x ≥ tt255 ∧ y < tt255 then 1
  else if x < tt255 ∧ y ≥ tt255 then 0
  else bword (x < y)

/-- `opSAR`: the shift taken as a word, the value as a signed integer. -/
def sarWord (shift value : Nat) : Nat :=
  let shift := u256 shift
  let value := s256 value
  if shift ≥ 256 then (if value > 0 then 0 else u256 (-1))
  else u256 (value >>> shift)

/-- The opcodes on the stack, top first: each pops its operands and pushes its result. -/
def ArithOp.execute : ArithOp → List Nat → Option (List Nat)
  | .add, x :: y :: rest => some (u256 (x + y) :: rest)
  | .sub, x :: y :: rest => some (u256 ((x : Int) - y) :: rest)
  | .mul, x :: y :: rest => some (u256 (x * y) :: rest)
  | .div, x :: y :: rest => some ((if y ≠ 0 then u256 (x / y) else 0) :: rest)
  | .sdiv, x :: y :: rest => some (sdivWord x y :: rest)
  | .mod, x :: y :: rest => some ((if y = 0 then 0 else u256 (x % y)) :: rest)
  | .smod, x :: y :: rest => some (smodWord x y :: rest)
  | .addmod, x :: y :: z :: rest => some ((if z > 0 then u256 ((x + y) % z) else 0) :: rest)
  | .mulmod, x :: y :: z :: rest => some ((if z > 0 then u256 ((x * y) % z) else 0) :: rest)
  | .exp, base :: exponent :: rest => some (mathExp base exponent :: rest)
  -- a `back` of 31 or more pops only `back` and leaves `num` on the stack
  | .signextend, back :: num :: rest => some ((if back < 31 then signExtendWord back num else num) :: rest)
  | .lt, x :: y :: rest => some (bword (x < y) :: rest)
  | .gt, x :: y :: rest => some (bword (x > y) :: rest)
  | .slt, x :: y :: rest => some (sltWord x y :: rest)
  | .sgt, x :: y :: rest => some (sltWord y x :: rest)
  | .eq, x :: y :: rest => some (bword (x = y) :: rest)
  | .iszero, x :: rest => some ((if x > 0 then 0 else 1) :: rest)
  | .and, x :: y :: rest => some ((x &&& y) :: rest)
  | .or, x :: y :: rest => some ((x ||| y) :: rest)
  | .xor, x :: y :: rest => some ((x ^^^ y) :: rest)
  | .not, x :: rest => some (u256 (Int.lnot x) :: rest)
  | .byte, th :: val :: rest => some ((if th < 32 then mathByte val th else 0) :: rest)
  | .shl, shift :: value :: rest =>
    some ((if u256 shift ≥ 256 then 0 else u256 (u256 value <<< u256 shift : Nat)) :: rest)
  | .shr, shift :: value :: rest =>
    some ((if u256 shift ≥ 256 then 0 else u256 (u256 value >>> u256 shift : Nat)) :: rest)
  | .sar, shift :: value :: rest => some (sarWord shift value :: rest)
  | _, _ => none

/-! ## The opcodes as the Yellow Paper and EIP-145 give them -/

/-- The results the Yellow Paper gives the opcodes, and EIP-145 the shifts, on words: the
signed ones through the two's-complement reading `s256` and back through `u256`. -/
def ArithOp.yellowPaper : ArithOp → List Nat → Option (List Nat)
  | .add, a :: b :: rest => some ((a + b) % tt256 :: rest)
  | .sub, a :: b :: rest => some ((a + tt256 - b) % tt256 :: rest)
  | .mul, a :: b :: rest => some (a * b % tt256 :: rest)
  | .div, a :: b :: rest => some ((if b = 0 then 0 else a / b) :: rest)
  | .sdiv, a :: b :: rest => some ((if b = 0 then 0 else u256 ((s256 a).tdiv (s256 b))) :: rest)
  | .mod, a :: b :: rest => some ((if b = 0 then 0 else a % b) :: rest)
  | .smod, a :: b :: rest => some ((if b = 0 then 0 else u256 ((s256 a).tmod (s256 b))) :: rest)
  | .addmod, a :: b :: c :: rest => some ((if c = 0 then 0 else (a + b) % c) :: rest)
  | .mulmod, a :: b :: c :: rest => some ((if c = 0 then 0 else a * b % c) :: rest)
  | .exp, a :: b :: rest => some (a ^ b % tt256 :: rest)
  | .signextend, b :: x :: rest =>
    some ((if b < 31 then
        (if x.testBit (8 * b + 7) then tt256 - 2 ^ (8 * b + 8) + x % 2 ^ (8 * b + 8) else x % 2 ^ (8 * b + 8))
      else x) :: rest)
  | .lt, a :: b :: rest => some (bword (a < b) :: rest)
  | .gt, a :: b :: rest => some (bword (a > b) :: rest)
  | .slt, a :: b :: rest => some (bword (s256 a < s256 b) :: rest)
  | .sgt, a :: b :: rest => some (bword (s256 a > s256 b) :: rest)
  | .eq, a :: b :: rest => some (bword (a = b) :: rest)
  | .iszero, a :: rest => some (bword (a = 0) :: rest)
  | .and, a :: b :: rest => some ((a &&& b) :: rest)
  | .or, a :: b :: rest => some ((a ||| b) :: rest)
  | .xor, a :: b :: rest => some ((a ^^^ b) :: rest)
  | .not, a :: rest => some ((tt256 - 1 - a) :: rest)
  | .byte, i :: x :: rest => some ((if i < 32 then x / 2 ^ (8 * (31 - i)) % 2 ^ 8 else 0) :: rest)
  | .shl, shift :: value :: rest => some ((if shift ≥ 256 then 0 else value * 2 ^ shift % tt256) :: rest)
  | .shr, shift :: value :: rest => some ((if shift ≥ 256 then 0 else value / 2 ^ shift) :: rest)
  -- the arithmetic shift rounds down; past the width it leaves the sign fill
  | .sar, shift :: value :: rest =>
    some ((if shift ≥ 256 then (if s256 value < 0 then tt256 - 1 else 0)
      else u256 (s256 value / (2 ^ shift : Nat))) :: rest)
  | _, _ => none

/-! ## Words -/

theorem u256_lt (x : Int) : u256 x < tt256 := by
  unfold u256 tt256
  omega

theorem u256_natCast (x : Nat) : u256 x = x % tt256 := by
  rw [u256, ← Int.natCast_mod, Int.toNat_natCast]

theorem u256_of_lt {x : Nat} (word : x < tt256) : u256 x = x := by
  rw [u256_natCast, Nat.mod_eq_of_lt word]

theorem u256_neg_one : u256 (-1) = tt256 - 1 := by decide

theorem s256_eq_zero_iff {x : Nat} (word : x < tt256) : s256 x = 0 ↔ x = 0 := by
  unfold s256 tt255 tt256 at *
  split <;> omega

theorem s256_pos_iff {x : Nat} (word : x < tt256) : 0 < s256 x ↔ 0 < x ∧ x < tt255 := by
  unfold s256 tt255 tt256 at *
  split <;> omega

theorem s256_neg_iff {x : Nat} (word : x < tt256) : s256 x < 0 ↔ tt255 ≤ x := by
  unfold s256 tt255 tt256 at *
  split <;> omega

/-! ## `SAR` -/

/-- `opSAR` with a shift of 256 or more: zero for a positive value, all ones otherwise. -/
theorem sarWord_wide {shift : Nat} (value : Nat) (word : shift < tt256) (wide : 256 ≤ shift) :
    sarWord shift value = if 0 < s256 value then 0 else tt256 - 1 := by
  unfold sarWord
  rw [u256_of_lt word, if_pos wide, u256_neg_one]

/-- `opSAR` by 256 or more on the value zero pushes `2 ^ 256 - 1`, the sign fill of a
negative value, where EIP-145 pushes zero: the code tests `value.Sign() > 0` for the
zero fill, which zero fails. -/
theorem sar_fills_zero_with_ones (shift : Nat) (rest : List Nat) (word : shift < tt256) (wide : 256 ≤ shift) :
    ArithOp.sar.execute (shift :: 0 :: rest) = some ((tt256 - 1) :: rest) ∧
      ArithOp.sar.yellowPaper (shift :: 0 :: rest) = some (0 :: rest) := by
  have zero : s256 0 = 0 := rfl
  refine ⟨?_, ?_⟩
  · rw [ArithOp.execute, sarWord_wide 0 word wide, zero, if_neg (Int.lt_irrefl 0)]
  · rw [ArithOp.yellowPaper, if_pos wide, zero, if_neg (Int.lt_irrefl 0)]

/-- `SAR 256 0`: the code pushes `2 ^ 256 - 1`, EIP-145 zero. -/
theorem sar_of_zero_by_256 :
    (256 : Nat) < tt256 ∧ 256 ≤ 256 ∧
      ArithOp.sar.execute [256, 0] = some [tt256 - 1] ∧ ArithOp.sar.yellowPaper [256, 0] = some [0] :=
  ⟨by decide, Nat.le_refl _, sar_fills_zero_with_ones 256 [] (by decide) (Nat.le_refl _)⟩

end TomoChain.Vm
