import Mathlib

set_option autoImplicit false

/-! Fixed-width big-endian byte strings of natural numbers, and the `copy` of Go
on slices: the encoding a fixed-size byte array such as an address has, and the
way a slice is written into one. -/
namespace TomoChain.Lib

/-- The `width` low bytes of `value`, most significant first. -/
def toBytesBE : Nat → Nat → List UInt8
  | 0, _ => []
  | width + 1, value => toBytesBE width (value / 256) ++ [UInt8.ofNat value]

theorem toBytesBE_zero (value : Nat) : toBytesBE 0 value = [] := rfl

theorem toBytesBE_succ (width value : Nat) :
    toBytesBE (width + 1) value = toBytesBE width (value / 256) ++ [UInt8.ofNat value] := rfl

/-- The number a byte string spells, most significant byte first. -/
def ofBytesBE (bytes : List UInt8) : Nat :=
  bytes.foldl (fun acc byte => acc * 256 + byte.toNat) 0

@[simp] theorem length_toBytesBE (width value : Nat) : (toBytesBE width value).length = width := by
  induction width generalizing value with
  | zero => rfl
  | succ width ih => simp [toBytesBE_succ, ih]

theorem ofBytesBE_append_singleton (bytes : List UInt8) (byte : UInt8) :
    ofBytesBE (bytes ++ [byte]) = ofBytesBE bytes * 256 + byte.toNat := by
  simp [ofBytesBE, List.foldl_append]

theorem ofBytesBE_toBytesBE (width value : Nat) :
    ofBytesBE (toBytesBE width value) = value % 256 ^ width := by
  induction width generalizing value with
  | zero => simp [toBytesBE_zero, ofBytesBE, Nat.mod_one]
  | succ width ih =>
    have byte : (UInt8.ofNat value).toNat = value % 256 := UInt8.toNat_ofNat'
    rw [toBytesBE_succ, ofBytesBE_append_singleton, ih, byte, Nat.pow_succ', Nat.mod_mul]
    -- the low byte is the last digit, the rest is the value shifted by one byte
    rw [Nat.add_comm, Nat.mul_comm]

/-- The low `b` bytes of a value come last; the `a` bytes before them are the value
shifted down by `b` bytes. -/
theorem toBytesBE_add (a b value : Nat) :
    toBytesBE (a + b) value = toBytesBE a (value / 256 ^ b) ++ toBytesBE b value := by
  induction b generalizing value with
  | zero => simp [toBytesBE_zero]
  | succ b ih =>
    rw [← Nat.add_assoc, toBytesBE_succ, ih, toBytesBE_succ, List.append_assoc, Nat.div_div_eq_div_mul, ← Nat.pow_succ']

/-- Dropping the high bytes keeps the low ones, as `BytesToAddress` does with a word. -/
theorem drop_toBytesBE (a b value : Nat) : (toBytesBE (a + b) value).drop a = toBytesBE b value := by
  rw [toBytesBE_add, List.drop_left' (length_toBytesBE a _)]

/-- Encoding a value that fits and decoding it gives the value back. -/
theorem ofBytesBE_toBytesBE_of_lt {width value : Nat} (fits : value < 256 ^ width) :
    ofBytesBE (toBytesBE width value) = value := by
  rw [ofBytesBE_toBytesBE, Nat.mod_eq_of_lt fits]

theorem toBytesBE_inj {width a b : Nat} (fitsA : a < 256 ^ width) (fitsB : b < 256 ^ width) :
    toBytesBE width a = toBytesBE width b ↔ a = b := by
  constructor
  · intro same
    rw [← ofBytesBE_toBytesBE_of_lt fitsA, ← ofBytesBE_toBytesBE_of_lt fitsB, same]
  · intro same
    rw [same]

/-- Two words side by side, as a mapping key and its slot are hashed, determine both. -/
theorem toBytesBE_append_inj {width a b a' b' : Nat} (fitsA : a < 256 ^ width) (fitsB : b < 256 ^ width)
    (fitsA' : a' < 256 ^ width) (fitsB' : b' < 256 ^ width) :
    toBytesBE width a ++ toBytesBE width b = toBytesBE width a' ++ toBytesBE width b' ↔ a = a' ∧ b = b' := by
  constructor
  · intro same
    obtain ⟨first, second⟩ := List.append_inj same (by simp)
    exact ⟨(toBytesBE_inj fitsA fitsA').mp first, (toBytesBE_inj fitsB fitsB').mp second⟩
  · rintro ⟨rfl, rfl⟩
    rfl

/-- Go's `copy(dst, src)` on slices: the first `min(len(dst), len(src))` elements of
`dst` are replaced by those of `src`, and the length of `dst` is kept. -/
def copyInto {α : Type} (dst src : List α) : List α :=
  src.take dst.length ++ dst.drop src.length

@[simp] theorem length_copyInto {α : Type} (dst src : List α) :
    (copyInto dst src).length = dst.length := by
  simp only [copyInto, List.length_append, List.length_take, List.length_drop]
  omega

/-- A source at least as long as the destination overwrites all of it. -/
theorem copyInto_of_length_le {α : Type} (dst src : List α) (long : dst.length ≤ src.length) :
    copyInto dst src = src.take dst.length := by
  simp [copyInto, List.drop_eq_nil_of_le long]

/-- Go's slice expression `s[:high]` on a slice whose capacity is its length, as for
the copies `types.Transaction.Data` returns: it panics past the end. -/
def sliceTo {α : Type} (s : List α) (high : Nat) : Option (List α) :=
  if high ≤ s.length then some (s.take high) else none

/-! ## Go's `encoding/hex`

As in Go 1.10, which the repository builds with: `Decode` rejects a string of odd
length before it reads a digit, and after an error `DecodeString` returns no bytes.
A string is read as its characters, which are its bytes for the ASCII strings the
repository decodes. -/

namespace Hex

/-- The errors of `hex.Decode`. -/
inductive HexError
  | errLength
  | invalidByteError (c : Char)
  deriving DecidableEq, Repr

/-- `fromHexChar`: the value of a digit, in either case. -/
def fromHexChar (c : Char) : Option UInt8 :=
  if '0' ≤ c ∧ c ≤ '9' then some (c.toNat - '0'.toNat).toUInt8
  else if 'a' ≤ c ∧ c ≤ 'f' then some (c.toNat - 'a'.toNat + 10).toUInt8
  else if 'A' ≤ c ∧ c ≤ 'F' then some (c.toNat - 'A'.toNat + 10).toUInt8
  else none

/-- The loop of `hex.Decode` over the pairs of digits, stopped by the first
character that is not one. -/
def decodePairs : List Char → Except HexError (List UInt8)
  | a :: b :: rest =>
    match fromHexChar a, fromHexChar b with
    | none, _ => .error (.invalidByteError a)
    | some _, none => .error (.invalidByteError b)
    | some high, some low => (decodePairs rest).map fun tail => (high <<< 4 ||| low) :: tail
  | _ => .ok []

/-- `hex.DecodeString`: the bytes and the error, if any. -/
def decodeString (s : String) : List UInt8 × Option HexError :=
  if s.length % 2 = 1 then ([], some .errLength)
  else
    match decodePairs s.toList with
    | .ok bytes => (bytes, none)
    | .error e => ([], some e)

/-- A string that starts with `0x` decodes to no bytes: `x` is not a digit. -/
theorem decodeString_of_prefix (rest : List Char) :
    (decodeString (String.ofList ('0' :: 'x' :: rest))).1 = [] := by
  have stopped : decodePairs ('0' :: 'x' :: rest) = .error (.invalidByteError 'x') := by
    have zero : fromHexChar '0' = some 0 := by decide
    have x : fromHexChar 'x' = none := by decide
    rw [decodePairs, zero, x]
  unfold decodeString
  split
  · rfl
  · rw [String.toList_ofList, stopped]

end Hex

end TomoChain.Lib
