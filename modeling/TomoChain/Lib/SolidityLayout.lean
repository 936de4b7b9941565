import Mathlib
import TomoChain.Lib.Bytes

set_option autoImplicit false

/-! The storage layout Solidity gives the state variables of a contract and the
members of a struct: value types are packed in declaration order into 32-byte
slots while they fit, and a mapping or a dynamic array takes a slot of its own,
after which the next item starts a new slot. The data of a mapping and of a dynamic
array sits at slots computed with `keccak256`, which is a parameter here. -/
namespace TomoChain.Lib

/-- How an item occupies storage. -/
inductive StorageType
  /-- A value type of this many bytes: `uintN`, `address`, `bool`. -/
  | value (bytes : Nat)
  /-- A mapping or a dynamic array, which holds one slot and keeps its data elsewhere. -/
  | whole
  deriving DecidableEq, Repr

/-- The slot of each item, from the next slot and the bytes already used in it. -/
def layoutFrom : List StorageType → Nat → Nat → List Nat
  | [], _, _ => []
  | .value bytes :: rest, slot, used =>
      if used + bytes ≤ 32 then slot :: layoutFrom rest slot (used + bytes)
      else (slot + 1) :: layoutFrom rest (slot + 1) bytes
  | .whole :: rest, slot, used =>
      let start := if used = 0 then slot else slot + 1
      start :: layoutFrom rest (start + 1) 0

/-- The slots of the items of a contract or a struct, counted from its first slot. -/
def layout (items : List StorageType) : List Nat := layoutFrom items 0 0

/-- The byte offset of each item in its slot, counted from the low-order end, from
the bytes already used in the current slot. -/
def offsetsFrom : List StorageType → Nat → List Nat
  | [], _ => []
  | .value bytes :: rest, used =>
      if used + bytes ≤ 32 then used :: offsetsFrom rest (used + bytes) else 0 :: offsetsFrom rest bytes
  | .whole :: rest, _ => 0 :: offsetsFrom rest 0

/-- The byte offsets of the items of a contract or a struct. -/
def offsets (items : List StorageType) : List Nat := offsetsFrom items 0

/-- The slot of the item `name` among named items. -/
def slotOfItem (items : List (String × StorageType)) (name : String) : Nat :=
  (((items.map Prod.fst).zip (layout (items.map Prod.snd))).lookup name).getD 0

/-- The byte offset of the item `name` in its slot. -/
def offsetOfItem (items : List (String × StorageType)) (name : String) : Nat :=
  (((items.map Prod.fst).zip (offsets (items.map Prod.snd))).lookup name).getD 0

/-! ## Where the data of mappings and arrays sits -/

variable (keccak256 : List UInt8 → Fin (2 ^ 256))

/-- The slot of `m[key]` for a mapping `m` at `slot` and a key of a value type:
`keccak256(key . slot)`, each padded to 32 bytes. -/
def mappingLocation (key slot : Nat) : Nat :=
  (keccak256 (toBytesBE 32 key ++ toBytesBE 32 slot)).val

/-- The slot of element `index` of a dynamic array at `slot` whose elements take a
slot each: `keccak256(slot) + index`, in the 256-bit arithmetic of the EVM. -/
def arrayElementLocation (slot index : Nat) : Nat :=
  ((keccak256 (toBytesBE 32 slot)).val + index) % 2 ^ 256

/-- The slot of the member at `memberSlot` of a struct that starts at `base`. -/
def memberLocation (base memberSlot : Nat) : Nat := (base + memberSlot) % 2 ^ 256

/-- The value of `size` bytes at byte `offset` of a word, where a packed item is kept. -/
def packedValue (word offset size : Nat) : Nat := word / 256 ^ offset % 256 ^ size

end TomoChain.Lib
