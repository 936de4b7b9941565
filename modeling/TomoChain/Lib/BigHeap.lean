import Mathlib

set_option autoImplicit false

/-! Go's `*big.Int` as a reference to a mutable integer. The values of type `*big.Int`
are references into a heap of cells: `big.NewInt`, `new(big.Int)` and `Hash.Big` allocate
a cell, an assignment `x = y` between two such variables copies the reference, and the
methods `z.Add(x, y)` and `z.Sub(x, y)` overwrite the receiver's cell and return the
receiver. Two variables that hold one reference therefore see each other's writes. -/
namespace TomoChain.Lib

/-- The `big.Int` cells, each under its reference, a number; `fresh` is the first
reference not yet allocated. -/
structure BigHeap where
  cells : Nat → Int
  fresh : Nat

namespace BigHeap

/-- The heap before any allocation. -/
def empty : BigHeap := ⟨fun _ => 0, 0⟩

variable (h : BigHeap)

/-- The integer a reference points to. -/
def get (r : Nat) : Int := h.cells r

/-- A new cell holding `v`, and its reference. -/
def alloc (v : Int) : Nat × BigHeap := (h.fresh, ⟨Function.update h.cells h.fresh v, h.fresh + 1⟩)

/-- `z.Sub(x, y)`: the cell of `z` gets `x - y`, both read before the write. -/
def sub (z x y : Nat) : Nat × BigHeap :=
  (z, { h with cells := Function.update h.cells z (h.get x - h.get y) })

/-- `z.Add(x, y)`. -/
def add (z x y : Nat) : Nat × BigHeap :=
  (z, { h with cells := Function.update h.cells z (h.get x + h.get y) })

@[simp] theorem fresh_empty : empty.fresh = 0 := rfl

@[simp] theorem get_empty (r : Nat) : empty.get r = 0 := rfl

@[simp] theorem alloc_ref (v : Int) : (h.alloc v).1 = h.fresh := rfl

@[simp] theorem fresh_alloc (v : Int) : (h.alloc v).2.fresh = h.fresh + 1 := rfl

@[simp] theorem get_alloc (v : Int) (r : Nat) : (h.alloc v).2.get r = if r = h.fresh then v else h.get r := by
  simp only [alloc, get, Function.update_apply]

@[simp] theorem sub_ref (z x y : Nat) : (h.sub z x y).1 = z := rfl

@[simp] theorem fresh_sub (z x y : Nat) : (h.sub z x y).2.fresh = h.fresh := rfl

@[simp] theorem get_sub (z x y r : Nat) :
    (h.sub z x y).2.get r = if r = z then h.get x - h.get y else h.get r := by
  simp only [sub, get, Function.update_apply]

@[simp] theorem add_ref (z x y : Nat) : (h.add z x y).1 = z := rfl

@[simp] theorem get_add (z x y r : Nat) :
    (h.add z x y).2.get r = if r = z then h.get x + h.get y else h.get r := by
  simp only [add, get, Function.update_apply]

end BigHeap

end TomoChain.Lib
