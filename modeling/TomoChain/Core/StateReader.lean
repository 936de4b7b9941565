import Mathlib
import TomoChain.Common.Types

set_option autoImplicit false

/-! The storage locations of Solidity state variables as `core/state/state_reader.go`
computes them, for the Go code that reads contract storage without running the
contract. `crypto.Keccak256` is a parameter, as its 32-byte value: nothing proved
here depends on which function it is. -/
namespace TomoChain.State

/-- What `StateDB.GetState` reads: the word at each slot of each contract. -/
abbrev Storage := Address → Hash → Hash

/-- `StateDB.SetState`. -/
def setState (storage : Storage) (addr : Address) (key value : Hash) : Storage :=
  Function.update storage addr (Function.update (storage addr) key value)

variable (keccak256 : List UInt8 → Hash)

/-- `GetLocSimpleVariable`: a variable of a value type sits at its own slot. -/
def getLocSimpleVariable (slot : Nat) : Hash := bigToHash slot

/-- `GetLocMappingAtKey`: the slot of `mapping[key]` for a mapping at `slot`. -/
def getLocMappingAtKey (key : Hash) (slot : Nat) : Nat :=
  (keccak256 (key.toBytes ++ (bigToHash slot).toBytes)).val

/-- `GetLocDynamicArrAtElement`: element `index` of a dynamic array at `slotHash`.
The offset `index * elementSize` is a `uint64` product. -/
def getLocDynamicArrAtElement (slotHash : Hash) (index elementSize : Nat) : Hash :=
  bigToHash ((keccak256 slotHash.toBytes).val + index * elementSize % 2 ^ 64)

/-- `GetLocFixedArrAtElement`: element `index` of a fixed array at `slot`. -/
def getLocFixedArrAtElement (slot index elementSize : Nat) : Hash :=
  bigToHash (slot + index * elementSize % 2 ^ 64)

@[simp] theorem setState_same (storage : Storage) (addr : Address) (key value : Hash) :
    setState storage addr key value addr key = value := by
  simp [setState]

/-- Writing back the word a slot holds changes nothing. -/
@[simp] theorem setState_self (storage : Storage) (addr : Address) (key : Hash) :
    setState storage addr key (storage addr key) = storage := by
  simp [setState]

theorem setState_of_ne (storage : Storage) (addr other : Address) (key slot value : Hash)
    (differs : other ≠ addr ∨ slot ≠ key) :
    setState storage addr key value other slot = storage other slot := by
  rcases differs with account | word
  · simp [setState, account]
  · by_cases same : other = addr
    · subst same
      simp [setState, word]
    · simp [setState, same]

end TomoChain.State
