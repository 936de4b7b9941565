import Mathlib
import TomoChain.Lib.Bytes

set_option autoImplicit false

/-! The encoder of `rlp/encode.go` for the types the package serializes without
custom encoders: unsigned integers, `bool`, `string`, `big.Int`, slices and arrays
(of bytes they are strings) and structs. The writers go through `encbuf` as the Go
code does: string data is appended to `str`, each list leaves a `listhead` with its
offset and, at `listEnd`, its size, and `toBytes` puts the list headers in front of
their data only at the end. -/
namespace TomoChain.Rlp

open Lib

/-- The Go types, as `makeWriter` and `makeDecoder` distinguish them. `uint bits`
covers `uint8` to `uint64`, `uint` and `uintptr` by `typ.Bits()`; a struct lists its
exported fields with their names. -/
inductive RType where
  | uint (bits : Nat)
  | bool
  | string
  | bigInt
  | slice (elem : RType)
  | array (len : Nat) (elem : RType)
  | struct (fields : List (String × RType))
  deriving Repr

/-- The Go values of those types: a struct, a slice and an array hold the list of
their fields or elements, a `[]byte` the list of its bytes as `uint` values. -/
inductive RValue where
  | uint (i : Nat)
  | bool (b : Bool)
  | string (s : List UInt8)
  | bigInt (i : Nat)
  | list (elems : List RValue)
  deriving Repr

mutual

/-- Equality of values is decidable, constructor by constructor; `deriving` does not
reach through the nested list. -/
def RValue.decEq : (a b : RValue) → Decidable (a = b)
  | .uint i, .uint j => if h : i = j then isTrue (h ▸ rfl) else isFalse fun e => h (RValue.uint.inj e)
  | .bool b, .bool c => if h : b = c then isTrue (h ▸ rfl) else isFalse fun e => h (RValue.bool.inj e)
  | .string s, .string t => if h : s = t then isTrue (h ▸ rfl) else isFalse fun e => h (RValue.string.inj e)
  | .bigInt i, .bigInt j => if h : i = j then isTrue (h ▸ rfl) else isFalse fun e => h (RValue.bigInt.inj e)
  | .list as, .list bs =>
    match RValue.decEqList as bs with
    | isTrue h => isTrue (h ▸ rfl)
    | isFalse h => isFalse fun e => h (RValue.list.inj e)
  | .uint _, .bool _ | .uint _, .string _ | .uint _, .bigInt _ | .uint _, .list _
  | .bool _, .uint _ | .bool _, .string _ | .bool _, .bigInt _ | .bool _, .list _
  | .string _, .uint _ | .string _, .bool _ | .string _, .bigInt _ | .string _, .list _
  | .bigInt _, .uint _ | .bigInt _, .bool _ | .bigInt _, .string _ | .bigInt _, .list _
  | .list _, .uint _ | .list _, .bool _ | .list _, .string _ | .list _, .bigInt _ => isFalse nofun

def RValue.decEqList : (as bs : List RValue) → Decidable (as = bs)
  | [], [] => isTrue rfl
  | a :: as, b :: bs =>
    match RValue.decEq a b, RValue.decEqList as bs with
    | isTrue h, isTrue t => isTrue (h ▸ t ▸ rfl)
    | isFalse h, _ => isFalse fun e => h (List.cons.inj e).1
    | _, isFalse t => isFalse fun e => t (List.cons.inj e).2
  | [], _ :: _ | _ :: _, [] => isFalse nofun

end

instance : DecidableEq RValue := RValue.decEq

/-- `isByte`: the element kind `reflect.Uint8`, for which slices and arrays are strings. -/
def isByte : RType → Bool
  | .uint 8 => true
  | _ => false

/-- `val.Bytes()` of a byte slice or array. -/
def byteValues (elems : List RValue) : List UInt8 :=
  elems.map fun
    | .uint i => i.toUInt8
    | _ => 0

/-- The loop of `intsize`, shifting `i` right by a byte until it is zero; `fuel`
bounds the shifts, and `i` shifts are always enough. -/
def intsizeLoop : Nat → Nat → Nat
  | 0, _ => 1
  | fuel + 1, i => if i / 256 = 0 then 1 else intsizeLoop fuel (i / 256) + 1

/-- `intsize`: the number of bytes `i` needs. -/
def intsize (i : Nat) : Nat := intsizeLoop i i

/-- `putint`: the cases of its switch write the `intsize i` low bytes of `i`, most
significant first. -/
def putint (i : Nat) : List UInt8 := toBytesBE (intsize i) i

/-- `headsize`. -/
def headsize (size : Nat) : Nat := if size < 56 then 1 else 1 + intsize size

/-- `puthead`: a one-byte header below 56, else the size of the size and the size. -/
def puthead (smalltag largetag : UInt8) (size : Nat) : List UInt8 :=
  if size < 56 then [smalltag + size.toUInt8]
  else
    let sizebytes := putint size
    (largetag + sizebytes.length.toUInt8) :: sizebytes

/-- `big.Int.Bytes()` of a non-negative integer: its big-endian bytes, none for zero. -/
def bigIntBytes (i : Nat) : List UInt8 := if i = 0 then [] else toBytesBE (intsize i) i

/-- `listhead`. -/
structure ListHead where
  offset : Nat
  size : Nat
  deriving Repr, DecidableEq

/-- `encbuf`. A `*listhead` is its index in `lheads`, which only grows. -/
structure Encbuf where
  str : List UInt8
  lheads : List ListHead
  lhsize : Nat
  deriving Repr

namespace Encbuf

/-- The buffer after `reset`. -/
def empty : Encbuf := ⟨[], [], 0⟩

variable (w : Encbuf)

/-- `w.str = append(w.str, b...)`. -/
def append (b : List UInt8) : Encbuf := { w with str := w.str ++ b }

def encodeStringHeader (size : Nat) : Encbuf :=
  if size < 56 then w.append [0x80 + size.toUInt8]
  else
    let sizebytes := putint size
    w.append ((0xB7 + sizebytes.length.toUInt8) :: sizebytes)

def encodeString (b : List UInt8) : Encbuf :=
  -- a single byte up to 0x7F is its own encoding
  if b.length = 1 ∧ b.headD 0 ≤ 0x7F then w.append [b.headD 0]
  else (w.encodeStringHeader b.length).append b

def size : Nat := w.str.length + w.lhsize

/-- `list`: a new header at the current string offset, whose `size` holds `lhsize`
until `listEnd`. -/
def list : Nat × Encbuf :=
  (w.lheads.length, { w with lheads := w.lheads ++ [⟨w.str.length, w.lhsize⟩] })

def listEnd (lh : Nat) : Encbuf :=
  let head := w.lheads.getD lh ⟨0, 0⟩
  let size := w.size - head.offset - head.size
  { w with
    lheads := w.lheads.set lh { head with size := size }
    lhsize := w.lhsize + (if size < 56 then 1 else 1 + intsize size) }

end Encbuf

/-- The loop of `toBytes`: the string data up to each header, then the header. -/
def toBytesLoop (str : List UInt8) : Nat → List ListHead → List UInt8
  | strpos, [] => str.drop strpos
  | strpos, head :: heads =>
    (str.take head.offset).drop strpos ++ puthead 0xC0 0xF7 head.size ++ toBytesLoop str head.offset heads

def Encbuf.toBytes (w : Encbuf) : List UInt8 := toBytesLoop w.str 0 w.lheads

namespace Encbuf

variable (w : Encbuf)

def writeUint (i : Nat) : Encbuf :=
  if i = 0 then w.append [0x80]
  else if i < 128 then w.append [i.toUInt8]
  else
    let s := putint i
    w.append ((0x80 + s.length.toUInt8) :: s)

def writeBool (b : Bool) : Encbuf := if b then w.append [0x01] else w.append [0x80]

/-- `writeBigInt`: a `big.Int` here is never negative. -/
def writeBigInt (i : Nat) : Encbuf := if i = 0 then w.append [0x80] else w.encodeString (bigIntBytes i)

def writeBytes (b : List UInt8) : Encbuf := w.encodeString b

def writeByteArray (b : List UInt8) : Encbuf := w.encodeString b

/-- `writeString` repeats the test and the header of `encodeString`. -/
def writeString (s : List UInt8) : Encbuf := w.encodeString s

end Encbuf

mutual

/-- The writer `makeWriter` builds for a type, applied to a value of it. -/
def writeValue : RType → RValue → Encbuf → Encbuf
  | .uint _, .uint i, w => w.writeUint i
  | .bool, .bool b, w => w.writeBool b
  | .string, .string s, w => w.writeString s
  | .bigInt, .bigInt i, w => w.writeBigInt i
  | .slice elem, .list vs, w =>
    if isByte elem then w.writeBytes (byteValues vs)
    else
      -- `makeSliceWriter`: `defer w.listEnd(w.list())`
      let (lh, w) := w.list
      (writeElems elem vs w).listEnd lh
  | .array _ elem, .list vs, w =>
    if isByte elem then w.writeByteArray (byteValues vs)
    else
      let (lh, w) := w.list
      (writeElems elem vs w).listEnd lh
  | .struct fields, .list vs, w =>
    -- `makeStructWriter`
    let (lh, w) := w.list
    (writeFields fields vs w).listEnd lh
  -- no Go value has a shape other than its type's
  | _, _, w => w

/-- The element loop of `makeSliceWriter`. -/
def writeElems : RType → List RValue → Encbuf → Encbuf
  | _, [], w => w
  | elem, v :: vs, w => writeElems elem vs (writeValue elem v w)

/-- The field loop of `makeStructWriter`. -/
def writeFields : List (String × RType) → List RValue → Encbuf → Encbuf
  | field :: fields, v :: vs, w => writeFields fields vs (writeValue field.2 v w)
  | _, _, w => w

end

/-- `EncodeToBytes`: the types here always encode without error. -/
def encodeToBytes (t : RType) (v : RValue) : List UInt8 := (writeValue t v Encbuf.empty).toBytes

example : encodeToBytes (.struct [("A", .array 1 (.uint 8)), ("B", .uint 64)]) (.list [.list [.uint 0], .uint 5]) =
    [0xC2, 0x00, 0x05] := by
  decide

end TomoChain.Rlp
