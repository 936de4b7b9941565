import Mathlib
import TomoChain.Rlp.Raw

set_option autoImplicit false

/-! RLP as the yellow paper defines it: an item is a byte string or a list of items,
and its encoding is the string, or the encodings of the items one after another,
behind a header that gives the kind and the size. The writers of `Encode` produce this
encoding for every value of its type (`encodeToBytes_eq_encode`), although `encbuf`
keeps the list headers apart from the string data, with their offsets, and puts each
in front of its data only in `toBytes`. `Split` reads every such encoding back
(`split_encode`). -/
namespace TomoChain.Rlp

open Lib

/-- An RLP item. -/
inductive Item where
  | str (b : List UInt8)
  | list (items : List Item)

mutual

/-- The encoding of an item: a single byte up to 0x7F stands for itself, any other
string follows its header, and a list's items follow theirs. -/
def Item.encode : Item → List UInt8
  | .str b => if b.length = 1 ∧ b.headD 0 ≤ 0x7F then b else puthead 0x80 0xB7 b.length ++ b
  | .list items => puthead 0xC0 0xF7 (Item.encodeAll items).length ++ Item.encodeAll items

/-- The encodings of items one after another: the content of a list. -/
def Item.encodeAll : List Item → List UInt8
  | [] => []
  | item :: items => item.encode ++ Item.encodeAll items

end

theorem encode_str (b : List UInt8) :
    (Item.str b).encode = if b.length = 1 ∧ b.headD 0 ≤ 0x7F then b else puthead 0x80 0xB7 b.length ++ b :=
  rfl

theorem encode_list (items : List Item) :
    (Item.list items).encode = puthead 0xC0 0xF7 (Item.encodeAll items).length ++ Item.encodeAll items :=
  rfl

theorem encodeAll_nil : Item.encodeAll [] = [] := rfl

theorem encodeAll_cons (item : Item) (items : List Item) :
    Item.encodeAll (item :: items) = item.encode ++ Item.encodeAll items := rfl

/-! ## The values of a type as items -/

/-- A value of a type, in the shape `makeWriter` expects: an unsigned integer fits in
64 bits, and the fields of a struct pair with its values in order, as `writeFields`
takes them. -/
inductive Typed : RType → RValue → Prop
  | uint {bits i : Nat} : i < 2 ^ 64 → Typed (.uint bits) (.uint i)
  | bool {b : Bool} : Typed .bool (.bool b)
  | string {s : List UInt8} : Typed .string (.string s)
  | bigInt {i : Nat} : Typed .bigInt (.bigInt i)
  | slice {elem : RType} {vs : List RValue} : (∀ v ∈ vs, Typed elem v) → Typed (.slice elem) (.list vs)
  | array {len : Nat} {elem : RType} {vs : List RValue} :
      (∀ v ∈ vs, Typed elem v) → Typed (.array len elem) (.list vs)
  | struct {fields : List (String × RType)} {vs : List RValue} :
      (∀ p ∈ fields.zip vs, Typed p.1.2 p.2) → Typed (.struct fields) (.list vs)

mutual

/-- The item a value is written as: integers as their big-endian bytes without leading
zeros, byte slices and arrays as strings, other slices, arrays and structs as lists. -/
def toItem : RType → RValue → Item
  | .uint _, .uint i => .str (bigIntBytes i)
  | .bool, .bool b => .str (if b then [0x01] else [])
  | .string, .string s => .str s
  | .bigInt, .bigInt i => .str (bigIntBytes i)
  | .slice elem, .list vs => if isByte elem then .str (byteValues vs) else .list (toItems elem vs)
  | .array _ elem, .list vs => if isByte elem then .str (byteValues vs) else .list (toItems elem vs)
  | .struct fields, .list vs => .list (fieldItems fields vs)
  | _, _ => .list []

def toItems (elem : RType) : List RValue → List Item
  | [] => []
  | v :: vs => toItem elem v :: toItems elem vs

def fieldItems : List (String × RType) → List RValue → List Item
  | field :: fields, v :: vs => toItem field.2 v :: fieldItems fields vs
  | _, _ => []

end

/-! ## The buffer `encbuf` -/

namespace Encbuf

/-- `w` followed by what `e` holds when it was written from the empty buffer: its
string data after `w`'s, its headers after `w`'s, their offsets moved by `w`'s data. -/
def extend (w e : Encbuf) : Encbuf :=
  ⟨w.str ++ e.str, w.lheads ++ e.lheads.map (fun h => { h with offset := h.offset + w.str.length }),
    w.lhsize + e.lhsize⟩

theorem extend_empty (w : Encbuf) : w.extend empty = w := by
  simp [extend, empty]

theorem empty_extend (e : Encbuf) : empty.extend e = e := by
  simp [extend, empty]

theorem extend_assoc (w a b : Encbuf) : (w.extend a).extend b = w.extend (a.extend b) := by
  simp only [extend, List.append_assoc, List.map_append, List.map_map, List.length_append, Nat.add_assoc,
    mk.injEq, true_and, and_true, List.append_cancel_left_eq]
  refine List.map_congr_left fun h _ => ?_
  simp only [Function.comp_apply, ListHead.mk.injEq, and_true]
  omega

theorem append_eq_extend (w : Encbuf) (b : List UInt8) : w.append b = w.extend ⟨b, [], 0⟩ := by
  simp [append, extend]

theorem getD_append_cons {α : Type} (front rest : List α) (x d : α) :
    (front ++ x :: rest).getD front.length d = x := by
  simp

theorem set_append_cons {α : Type} (front rest : List α) (x y : α) :
    (front ++ x :: rest).set front.length y = front ++ y :: rest := by
  simp

/-- Closing the list opened last: the header's size counts the data and the headers
written since it was opened, so it is the same after any prefix. -/
theorem listEnd_list_extend (w e : Encbuf) :
    (w.list.2.extend e).listEnd w.list.1 = w.extend ((empty.list.2.extend e).listEnd 0) := by
  have size : w.str.length + (e.str.length + (w.lhsize + e.lhsize)) - w.str.length - w.lhsize =
      e.str.length + e.lhsize := by
    omega
  simp only [list, extend, listEnd, Encbuf.size, empty, List.append_assoc, List.cons_append, List.nil_append, List.length_append, List.length_nil, Nat.add_zero, Nat.zero_add,
    Nat.add_assoc, getD_append_cons, set_append_cons, List.getD_cons_zero, List.set_cons_zero,
    List.map_cons, List.map_id', size, Nat.sub_zero]

end Encbuf

/-! ## `toBytes` -/

theorem toBytesLoop_nil (str : List UInt8) (strpos : Nat) : toBytesLoop str strpos [] = str.drop strpos := rfl

theorem toBytesLoop_cons (str : List UInt8) (strpos : Nat) (head : ListHead) (heads : List ListHead) :
    toBytesLoop str strpos (head :: heads) =
      (str.take head.offset).drop strpos ++ puthead 0xC0 0xF7 head.size ++ toBytesLoop str head.offset heads :=
  rfl

/-- Data in front of the string moves every header by its length and the output not at all. -/
theorem toBytesLoop_shift (front str : List UInt8) (strpos : Nat) (heads : List ListHead) :
    toBytesLoop (front ++ str) (front.length + strpos)
        (heads.map fun h => { h with offset := h.offset + front.length }) =
      toBytesLoop str strpos heads := by
  induction heads generalizing strpos with
  | nil => simp only [List.map_nil, toBytesLoop_nil, List.drop_length_add_append]
  | cons head heads ih =>
    simp only [List.map_cons, toBytesLoop_cons, Nat.add_comm head.offset, List.take_length_add_append,
      List.drop_length_add_append, ih]

/-- The headers of a buffer written after `front` put their data behind all of `front`. -/
theorem toBytesLoop_after (front str : List UInt8) (strpos : Nat) (heads : List ListHead)
    (within : strpos ≤ front.length) :
    toBytesLoop (front ++ str) strpos (heads.map fun h => { h with offset := h.offset + front.length }) =
      front.drop strpos ++ toBytesLoop str 0 heads := by
  cases heads with
  | nil => simp only [List.map_nil, toBytesLoop_nil, List.drop_append_of_le_length within, List.drop_zero]
  | cons head heads =>
    have shifted := toBytesLoop_shift front str head.offset heads
    simp only [List.map_cons, toBytesLoop_cons, Nat.add_comm head.offset, List.take_length_add_append,
      List.drop_append_of_le_length within, List.drop_zero, List.append_assoc, shifted]

/-- `toBytes` of two buffers side by side, when the first one's headers lie inside its data. -/
theorem toBytesLoop_extend (front str : List UInt8) (strpos : Nat) (fronts heads : List ListHead)
    (within : strpos ≤ front.length) (offsets : ∀ h ∈ fronts, h.offset ≤ front.length) :
    toBytesLoop (front ++ str) strpos (fronts ++ heads.map fun h => { h with offset := h.offset + front.length }) =
      toBytesLoop front strpos fronts ++ toBytesLoop str 0 heads := by
  induction fronts generalizing strpos with
  | nil => simp only [List.nil_append, toBytesLoop_after front str strpos heads within, toBytesLoop_nil]
  | cons head fronts ih =>
    have inside := offsets head List.mem_cons_self
    have rest := ih head.offset inside fun h mem => offsets h (List.mem_cons_of_mem head mem)
    simp only [List.cons_append, toBytesLoop_cons, List.take_append_of_le_length inside, rest,
      List.append_assoc]

/-! ## Sizes -/

theorem one_le_intsizeLoop (fuel i : Nat) : 1 ≤ intsizeLoop fuel i := by
  induction fuel generalizing i with
  | zero => exact Nat.le_refl 1
  | succ fuel ih =>
    simp only [intsizeLoop]
    split <;> omega

/-- Given one shift per byte, `intsizeLoop` counts enough bytes for `i`. -/
theorem lt_pow_intsizeLoop (fuel i : Nat) (enough : i ≤ fuel) : i < 256 ^ intsizeLoop fuel i := by
  induction fuel generalizing i with
  | zero => simp [intsizeLoop, Nat.le_zero.mp enough]
  | succ fuel ih =>
    simp only [intsizeLoop]
    split
    · omega
    · next shifted =>
      have rest := ih (i / 256) (by omega)
      rw [Nat.pow_succ]
      exact (Nat.div_lt_iff_lt_mul (by decide)).mp rest

/-- And no more than it needs: the top byte it counts is not zero. -/
theorem pow_intsizeLoop_le (fuel i : Nat) (pos : 0 < i) : 256 ^ (intsizeLoop fuel i - 1) ≤ i := by
  induction fuel generalizing i with
  | zero => simpa [intsizeLoop] using Nat.one_le_of_lt pos
  | succ fuel ih =>
    simp only [intsizeLoop]
    split
    · simpa using Nat.one_le_of_lt pos
    · next shifted =>
      have rest := ih (i / 256) (by omega)
      have one := one_le_intsizeLoop fuel (i / 256)
      calc 256 ^ (intsizeLoop fuel (i / 256) + 1 - 1) = 256 ^ (intsizeLoop fuel (i / 256) - 1) * 256 := by
            rw [← Nat.pow_succ]
            congr 1
            omega
        _ ≤ i / 256 * 256 := Nat.mul_le_mul_right 256 rest
        _ ≤ i := Nat.div_mul_le_self i 256

theorem one_le_intsize (i : Nat) : 1 ≤ intsize i := one_le_intsizeLoop i i

theorem lt_pow_intsize (i : Nat) : i < 256 ^ intsize i := lt_pow_intsizeLoop i i (Nat.le_refl i)

theorem pow_intsize_le {i : Nat} (pos : 0 < i) : 256 ^ (intsize i - 1) ≤ i := pow_intsizeLoop_le i i pos

/-- A number below `256 ^ n` takes at most `n` bytes. -/
theorem intsize_le {i n : Nat} (one : 1 ≤ n) (fits : i < 256 ^ n) : intsize i ≤ n := by
  rcases Nat.eq_zero_or_pos i with zero | pos
  · subst zero
    exact one
  · have top := Nat.lt_of_le_of_lt (pow_intsize_le pos) fits
    have := (Nat.pow_lt_pow_iff_right (by decide : 1 < 256)).mp top
    omega

theorem intsize_le_eight {i : Nat} (fits : i < 2 ^ 64) : intsize i ≤ 8 :=
  intsize_le (by decide) (by simpa using fits)

theorem intsize_eq_one {i : Nat} (fits : i < 256) : intsize i = 1 :=
  Nat.le_antisymm (intsize_le (Nat.le_refl 1) (by simpa using fits)) (one_le_intsize i)

theorem length_putint (i : Nat) : (putint i).length = intsize i := length_toBytesBE _ _

theorem ofBytesBE_putint (i : Nat) : ofBytesBE (putint i) = i :=
  ofBytesBE_toBytesBE_of_lt (lt_pow_intsize i)

/-- `putint` writes no leading zero byte. -/
theorem headD_putint {i : Nat} (pos : 0 < i) : (putint i).headD 0 ≠ 0 := by
  have split : putint i = toBytesBE 1 (i / 256 ^ (intsize i - 1)) ++ toBytesBE (intsize i - 1) i := by
    rw [putint, ← toBytesBE_add, Nat.add_sub_cancel' (one_le_intsize i)]
  have top : 0 < i / 256 ^ (intsize i - 1) := Nat.div_pos (pow_intsize_le pos) (Nat.pow_pos (by decide))
  have below : i / 256 ^ (intsize i - 1) < 256 := by
    rw [Nat.div_lt_iff_lt_mul (Nat.pow_pos (by decide))]
    calc i < 256 ^ intsize i := lt_pow_intsize i
      _ = 256 ^ (intsize i - 1 + 1) := by rw [Nat.sub_add_cancel (one_le_intsize i)]
      _ = 256 * 256 ^ (intsize i - 1) := Nat.pow_succ'
  rw [split, toBytesBE_succ, toBytesBE_zero, List.nil_append, List.singleton_append, List.headD_cons]
  intro zero
  have := congrArg UInt8.toNat zero
  simp only [UInt8.toNat_ofNat', UInt8.toNat_zero, Nat.mod_eq_of_lt below] at this
  omega

theorem length_puthead (smalltag largetag : UInt8) (size : Nat) :
    (puthead smalltag largetag size).length = headsize size := by
  unfold puthead headsize
  split <;> simp [length_putint, Nat.add_comm]

theorem bigIntBytes_of_pos {i : Nat} (pos : 0 < i) : bigIntBytes i = putint i := by
  simp [bigIntBytes, putint, Nat.pos_iff_ne_zero.mp pos]

theorem putint_of_lt {i : Nat} (fits : i < 256) : putint i = [i.toUInt8] := by
  rw [putint, intsize_eq_one fits]
  rfl

/-! ## Buffers that render an encoding -/

/-- `e` renders as `bytes`: `toBytes` gives them, `size` counts them, and every header
lies inside the string data, as the headers of a buffer written from empty do. -/
structure Renders (e : Encbuf) (bytes : List UInt8) : Prop where
  toBytes_eq : e.toBytes = bytes
  length_eq : bytes.length = e.str.length + e.lhsize
  offset_le : ∀ h ∈ e.lheads, h.offset ≤ e.str.length

namespace Renders

theorem data (b : List UInt8) : Renders ⟨b, [], 0⟩ b where
  toBytes_eq := List.drop_zero
  length_eq := (Nat.add_zero _).symm
  offset_le := fun _ absent => absurd absent List.not_mem_nil

theorem extend {a b : Encbuf} {x y : List UInt8} (ra : Renders a x) (rb : Renders b y) :
    Renders (a.extend b) (x ++ y) where
  toBytes_eq := by
    rw [Encbuf.toBytes, Encbuf.extend, toBytesLoop_extend _ _ 0 _ _ (Nat.zero_le _) ra.offset_le]
    exact congrArg₂ (· ++ ·) ra.toBytes_eq rb.toBytes_eq
  length_eq := by
    simp only [Encbuf.extend, List.length_append, ra.length_eq, rb.length_eq]
    omega
  offset_le := by
    intro h mem
    simp only [Encbuf.extend, List.mem_append, List.mem_map, List.length_append] at mem ⊢
    rcases mem with front | ⟨h', back, rfl⟩
    · have := ra.offset_le h front
      omega
    · have := rb.offset_le h' back
      simp only
      omega

/-- The buffer of a list written from empty: its header at offset 0, sized by
everything written inside it. -/
theorem closeList_eq (e : Encbuf) :
    (Encbuf.empty.list.2.extend e).listEnd 0 =
      ⟨e.str, ⟨0, e.str.length + e.lhsize⟩ :: e.lheads, e.lhsize + headsize (e.str.length + e.lhsize)⟩ := by
  simp [Encbuf.list, Encbuf.extend, Encbuf.listEnd, Encbuf.empty, Encbuf.size, headsize]

theorem closeList {e : Encbuf} {y : List UInt8} (r : Renders e y) :
    Renders ((Encbuf.empty.list.2.extend e).listEnd 0) (puthead 0xC0 0xF7 y.length ++ y) := by
  rw [closeList_eq, ← r.length_eq]
  refine ⟨?_, ?_, ?_⟩
  · simp only [Encbuf.toBytes, toBytesLoop_cons, List.take_zero, List.drop_nil, List.nil_append]
    exact congrArg _ r.toBytes_eq
  · simp only [List.length_append, length_puthead, r.length_eq]
    omega
  · intro h mem
    rcases List.mem_cons.mp mem with rfl | inner
    · exact Nat.zero_le _
    · exact r.offset_le h inner

end Renders

/-- `write` adds one and the same buffer to whatever buffer it is given, and that buffer
renders as `bytes`. The writer of a value is such a function. -/
def Writes (write : Encbuf → Encbuf) (bytes : List UInt8) : Prop :=
  ∃ e, Renders e bytes ∧ ∀ w, write w = w.extend e

namespace Writes

theorem of_append {write : Encbuf → Encbuf} {b : List UInt8} (appends : ∀ w, write w = w.append b) :
    Writes write b :=
  ⟨_, Renders.data b, fun w => (appends w).trans (Encbuf.append_eq_extend w b)⟩

theorem nothing : Writes (fun w => w) [] :=
  ⟨Encbuf.empty, Renders.data [], fun w => (Encbuf.extend_empty w).symm⟩

theorem comp {f g : Encbuf → Encbuf} {x y : List UInt8} (wf : Writes f x) (wg : Writes g y) :
    Writes (fun w => g (f w)) (x ++ y) := by
  obtain ⟨ef, rf, hf⟩ := wf
  obtain ⟨eg, rg, hg⟩ := wg
  exact ⟨ef.extend eg, rf.extend rg, fun w => by
    show g (f w) = _
    rw [hf, hg, Encbuf.extend_assoc]⟩

/-- `defer w.listEnd(w.list())` around a writer puts a list header in front of what it writes. -/
theorem list {f : Encbuf → Encbuf} {y : List UInt8} (wf : Writes f y) :
    Writes (fun w => (f w.list.2).listEnd w.list.1) (puthead 0xC0 0xF7 y.length ++ y) := by
  obtain ⟨e, r, hf⟩ := wf
  exact ⟨_, r.closeList, fun w => by
    show (f w.list.2).listEnd w.list.1 = _
    rw [hf, Encbuf.listEnd_list_extend]⟩

theorem toBytes {f : Encbuf → Encbuf} {bytes : List UInt8} (wf : Writes f bytes) :
    (f Encbuf.empty).toBytes = bytes := by
  obtain ⟨e, r, hf⟩ := wf
  rw [hf, Encbuf.empty_extend, r.toBytes_eq]

end Writes

/-! ## The writers -/

namespace Encbuf

theorem append_append (w : Encbuf) (a b : List UInt8) : (w.append a).append b = w.append (a ++ b) := by
  simp [append, List.append_assoc]

theorem encodeStringHeader_eq (w : Encbuf) (size : Nat) : w.encodeStringHeader size = w.append (puthead 0x80 0xB7 size) := by
  unfold encodeStringHeader puthead
  split <;> rfl

theorem encodeString_eq (w : Encbuf) (b : List UInt8) : w.encodeString b = w.append (Item.str b).encode := by
  rw [encode_str, encodeString]
  split
  · next single =>
    -- a single byte is written as `b[0]`, which is `b`
    match b, single with
    | [_], _ => rfl
  · rw [encodeStringHeader_eq, append_append]

/-- An integer is written as the string of its bytes; for zero that string is empty. -/
theorem writeUint_eq (w : Encbuf) {i : Nat} (fits : i < 2 ^ 64) :
    w.writeUint i = w.append (Item.str (bigIntBytes i)).encode := by
  unfold writeUint
  split
  · next zero =>
    subst zero
    rfl
  · next nonzero =>
    rw [bigIntBytes_of_pos (Nat.pos_of_ne_zero nonzero)]
    split
    · next small =>
      have single : (putint i).length = 1 ∧ (putint i).headD 0 ≤ 0x7F := by
        rw [putint_of_lt (by omega)]
        refine ⟨rfl, ?_⟩
        simp only [List.headD_cons, UInt8.le_iff_toNat_le, Nat.toUInt8_eq, UInt8.toNat_ofNat', UInt8.reduceToNat]
        simp only [Nat.mod_eq_of_lt (by omega : i < 256)]
        omega
      rw [encode_str, if_pos single, putint_of_lt (by omega)]
    · next large =>
      have notSingle : ¬((putint i).length = 1 ∧ (putint i).headD 0 ≤ 0x7F) := by
        rintro ⟨one, low⟩
        have fits : i < 256 := by
          have bound := lt_pow_intsize i
          rwa [← length_putint, one, Nat.pow_one] at bound
        rw [putint_of_lt fits] at low
        simp only [List.headD_cons, UInt8.le_iff_toNat_le, Nat.toUInt8_eq, UInt8.toNat_ofNat', UInt8.reduceToNat] at low
        simp only [Nat.mod_eq_of_lt fits] at low
        omega
      have short : (putint i).length < 56 := by
        rw [length_putint]
        have := intsize_le_eight fits
        omega
      rw [encode_str, if_neg notSingle, puthead, if_pos short]
      rfl

theorem writeBool_eq (w : Encbuf) (b : Bool) : w.writeBool b = w.append (Item.str (if b then [0x01] else [])).encode := by
  cases b <;> rfl

theorem writeBigInt_eq (w : Encbuf) (i : Nat) : w.writeBigInt i = w.append (Item.str (bigIntBytes i)).encode := by
  unfold writeBigInt
  split
  · next zero =>
    subst zero
    rfl
  · exact encodeString_eq w _

end Encbuf

theorem writeValue_slice (elem : RType) (vs : List RValue) (w : Encbuf) :
    writeValue (.slice elem) (.list vs) w =
      if isByte elem then w.writeBytes (byteValues vs) else (writeElems elem vs w.list.2).listEnd w.list.1 :=
  rfl

theorem writeValue_array (len : Nat) (elem : RType) (vs : List RValue) (w : Encbuf) :
    writeValue (.array len elem) (.list vs) w =
      if isByte elem then w.writeByteArray (byteValues vs) else (writeElems elem vs w.list.2).listEnd w.list.1 :=
  rfl

theorem writeValue_struct (fields : List (String × RType)) (vs : List RValue) (w : Encbuf) :
    writeValue (.struct fields) (.list vs) w = (writeFields fields vs w.list.2).listEnd w.list.1 :=
  rfl

theorem toItem_slice (elem : RType) (vs : List RValue) :
    toItem (.slice elem) (.list vs) = if isByte elem then .str (byteValues vs) else .list (toItems elem vs) :=
  rfl

theorem toItem_array (len : Nat) (elem : RType) (vs : List RValue) :
    toItem (.array len elem) (.list vs) = if isByte elem then .str (byteValues vs) else .list (toItems elem vs) :=
  rfl

/-- The element loop writes the elements' encodings one after another. -/
theorem writes_writeElems (elem : RType) (vs : List RValue)
    (each : ∀ v ∈ vs, Writes (writeValue elem v) (toItem elem v).encode) :
    Writes (writeElems elem vs) (Item.encodeAll (toItems elem vs)) := by
  induction vs with
  | nil => exact Writes.nothing
  | cons v vs ih =>
    have first := each v List.mem_cons_self
    have rest := ih fun u mem => each u (List.mem_cons_of_mem v mem)
    exact first.comp rest

/-- The field loop writes the fields' encodings one after another, as far as both the
fields and the values go. -/
theorem writes_writeFields (fields : List (String × RType)) (vs : List RValue)
    (each : ∀ p ∈ fields.zip vs, Writes (writeValue p.1.2 p.2) (toItem p.1.2 p.2).encode) :
    Writes (writeFields fields vs) (Item.encodeAll (fieldItems fields vs)) := by
  induction fields generalizing vs with
  | nil => cases vs <;> exact Writes.nothing
  | cons field fields ih =>
    cases vs with
    | nil => exact Writes.nothing
    | cons v vs =>
      have first := each (field, v) List.mem_cons_self
      have rest := ih vs fun p mem => each p (List.mem_cons_of_mem _ mem)
      exact first.comp rest

/-- A slice or an array: a string of its bytes, or a list of its elements. -/
theorem writes_elements (elem : RType) (vs : List RValue) (byteWriter : Encbuf → Encbuf)
    (bytes : ∀ w, byteWriter w = w.encodeString (byteValues vs))
    (each : ∀ v ∈ vs, Writes (writeValue elem v) (toItem elem v).encode) :
    Writes (fun w => if isByte elem then byteWriter w else (writeElems elem vs w.list.2).listEnd w.list.1)
      (if isByte elem then Item.str (byteValues vs) else .list (toItems elem vs)).encode := by
  by_cases byte : isByte elem
  · simp only [byte, if_true]
    exact Writes.of_append fun w => (bytes w).trans (Encbuf.encodeString_eq w _)
  · simp only [byte, Bool.false_eq_true, if_false, encode_list]
    exact (writes_writeElems elem vs each).list

/-- The writer of a value writes its item's encoding, whatever the buffer holds before. -/
theorem writes_writeValue {t : RType} {v : RValue} (typed : Typed t v) :
    Writes (writeValue t v) (toItem t v).encode := by
  induction typed with
  | uint fits => exact Writes.of_append fun w => w.writeUint_eq fits
  | bool => exact Writes.of_append fun w => w.writeBool_eq _
  | string => exact Writes.of_append fun w => w.encodeString_eq _
  | bigInt => exact Writes.of_append fun w => w.writeBigInt_eq _
  | @slice elem vs _ each =>
    rw [toItem_slice, show writeValue (.slice elem) (.list vs) = _ from funext (writeValue_slice elem vs)]
    exact writes_elements elem vs _ (fun _ => rfl) each
  | @array len elem vs _ each =>
    rw [toItem_array, show writeValue (.array len elem) (.list vs) = _ from funext (writeValue_array len elem vs)]
    exact writes_elements elem vs _ (fun _ => rfl) each
  | @struct fields vs _ each =>
    rw [show writeValue (.struct fields) (.list vs) = _ from funext (writeValue_struct fields vs)]
    exact (writes_writeFields fields vs each).list

/-- `EncodeToBytes` produces the RLP encoding of the value's item: the `encbuf` with its
separate list headers renders exactly the nested encoding. -/
theorem encodeToBytes_eq_encode {t : RType} {v : RValue} (typed : Typed t v) :
    encodeToBytes t v = (toItem t v).encode :=
  (writes_writeValue typed).toBytes

/-- `struct { A uint64; B []string }`, with `A = 300` and `B = ["\x01\x02"]`. -/
theorem encodeToBytes_eq_encode_struct :
    Typed (.struct [("A", .uint 64), ("B", .slice .string)]) (.list [.uint 300, .list [.string [1, 2]]]) ∧
      encodeToBytes (.struct [("A", .uint 64), ("B", .slice .string)]) (.list [.uint 300, .list [.string [1, 2]]]) =
        (toItem (.struct [("A", .uint 64), ("B", .slice .string)]) (.list [.uint 300, .list [.string [1, 2]]])).encode := by
  have typed : Typed (.struct [("A", .uint 64), ("B", .slice .string)]) (.list [.uint 300, .list [.string [1, 2]]]) := by
    refine .struct fun p mem => ?_
    simp only [List.zip_cons_cons, List.zip_nil_right, List.mem_cons, List.not_mem_nil, or_false] at mem
    rcases mem with rfl | rfl
    · exact .uint (by decide)
    · refine .slice fun v mem => ?_
      rw [List.mem_singleton] at mem
      subst mem
      exact .string
  exact ⟨typed, encodeToBytes_eq_encode typed⟩

/-! ## `Split` reads the encoding back -/

/-- The kind `Split` reports for an item. -/
def Item.kind : Item → Kind
  | .str b => if b.length = 1 ∧ b.headD 0 ≤ 0x7F then .byte else .string
  | .list _ => .list

/-- The content `Split` cuts out of an item's encoding. -/
def Item.content : Item → List UInt8
  | .str b => b
  | .list items => Item.encodeAll items

theorem kind_str (b : List UInt8) :
    (Item.str b).kind = if b.length = 1 ∧ b.headD 0 ≤ 0x7F then .byte else .string := rfl

theorem kind_list (items : List Item) : (Item.list items).kind = .list := rfl

theorem content_str (b : List UInt8) : (Item.str b).content = b := rfl

theorem content_list (items : List Item) : (Item.list items).content = Item.encodeAll items := rfl

/-- A tag plus a size that does not overflow the byte. -/
theorem toNat_tag_add {tag : UInt8} {n : Nat} (fits : tag.toNat + n < 256) :
    (tag + n.toUInt8).toNat = tag.toNat + n := by
  rw [UInt8.toNat_add, Nat.toUInt8_eq, UInt8.toNat_ofNat', Nat.mod_eq_of_lt (by omega : n < 2 ^ 8)]
  exact Nat.mod_eq_of_lt fits

theorem toNat_tag_sub {tag : UInt8} {n : Nat} (fits : n < 256) : (tag + n.toUInt8 - tag).toNat = n := by
  rw [add_sub_cancel_left, Nat.toUInt8_eq, UInt8.toNat_ofNat']
  exact Nat.mod_eq_of_lt fits

/-- Behind a header, the content of a value and the rest of the input: what `Split` cuts. -/
theorem split_of_header {head content rest : List UInt8} {k : Kind}
    (header : Header (head ++ (content ++ rest)) k head.length content.length) :
    split (head ++ (content ++ rest)) = .ok (k, content, rest) := by
  rw [split, readKind_of_header header]
  simp [List.drop_length_add_append]

theorem header_short_string {b rest : List UInt8} (short : b.length < 56)
    (notSingle : ¬(b.length = 1 ∧ b.headD 0 ≤ 0x7F)) :
    Header (puthead 0x80 0xB7 b.length ++ (b ++ rest)) .string (puthead 0x80 0xB7 b.length).length b.length := by
  have tag : (0x80 + b.length.toUInt8 : UInt8).toNat = (0x80 : UInt8).toNat + b.length :=
    toNat_tag_add (by simp only [UInt8.reduceToNat]; omega)
  have size : (0x80 + b.length.toUInt8 - 0x80 : UInt8).toNat = b.length := toNat_tag_sub (by omega)
  have canon : ¬((0x80 + b.length.toUInt8 - 0x80 : UInt8).toNat = 1 ∧ (b ++ rest).headD 0 < 0x80) := by
    rintro ⟨one, low⟩
    rw [size] at one
    match b, one with
    | [y], _ =>
      refine notSingle ⟨rfl, ?_⟩
      simp only [List.cons_append, List.headD_cons, UInt8.lt_iff_toNat_lt, UInt8.reduceToNat] at low
      simp only [List.headD_cons, UInt8.le_iff_toNat_le, UInt8.reduceToNat]
      omega
  have header := @Header.short (0x80 + b.length.toUInt8) (b ++ rest)
    (UInt8.le_iff_toNat_le.mpr (by simp only [tag, UInt8.reduceToNat]; omega))
    (UInt8.lt_iff_toNat_lt.mpr (by simp only [tag, UInt8.reduceToNat]; omega))
    (by rw [size, List.length_append]; omega) canon
  rw [size] at header
  rw [puthead, if_pos short]
  exact header

theorem header_short_list {content rest : List UInt8} (short : content.length < 56) :
    Header (puthead 0xC0 0xF7 content.length ++ (content ++ rest)) .list (puthead 0xC0 0xF7 content.length).length
      content.length := by
  have tag : (0xC0 + content.length.toUInt8 : UInt8).toNat = (0xC0 : UInt8).toNat + content.length :=
    toNat_tag_add (by simp only [UInt8.reduceToNat]; omega)
  have size : (0xC0 + content.length.toUInt8 - 0xC0 : UInt8).toNat = content.length := toNat_tag_sub (by omega)
  have header := @Header.shortList (0xC0 + content.length.toUInt8) (content ++ rest)
    (UInt8.le_iff_toNat_le.mpr (by simp only [tag, UInt8.reduceToNat]; omega))
    (UInt8.lt_iff_toNat_lt.mpr (by simp only [tag, UInt8.reduceToNat]; omega))
    (by rw [size, List.length_append]; omega)
  rw [size] at header
  rw [puthead, if_pos short]
  exact header

/-- A long header: the tag counts the size's bytes, which `putint` writes without a
leading zero. -/
theorem header_long {smalltag largetag : UInt8} {k : Kind} {content rest : List UInt8}
    (long : 56 ≤ content.length) (form : LongForm (largetag + (intsize content.length).toUInt8) k (intsize content.length)) :
    Header (puthead smalltag largetag content.length ++ (content ++ rest)) k
      (puthead smalltag largetag content.length).length content.length := by
  have read : ofBytesBE ((putint content.length ++ (content ++ rest)).take (intsize content.length)) =
      content.length := by
    rw [List.take_left' (length_putint _), ofBytesBE_putint]
  have lead : (putint content.length ++ (content ++ rest)).headD 0 ≠ 0 := by
    rw [← headD_take (Nat.lt_of_lt_of_le Nat.zero_lt_one (one_le_intsize _)), List.take_left' (length_putint _)]
    exact headD_putint (by omega)
  have header := @Header.long _ (putint content.length ++ (content ++ rest)) _ _ form
    (by simp [length_putint]) lead (by rw [read]; exact long) (by rw [read]; simp [length_putint])
  rw [read] at header
  rw [puthead, if_neg (by omega)]
  simp only [List.cons_append, List.length_cons, length_putint]
  exact header

theorem longForm_string {n : Nat} (fits : n < 2 ^ 64) : LongForm (0xB7 + (intsize n).toUInt8) .string (intsize n) := by
  have one := one_le_intsize n
  have eight := intsize_le_eight fits
  have tag : (0xB7 + (intsize n).toUInt8 : UInt8).toNat = (0xB7 : UInt8).toNat + intsize n :=
    toNat_tag_add (by simp only [UInt8.reduceToNat]; omega)
  refine .inl ⟨?_, ?_, rfl, (toNat_tag_sub (by omega)).symm⟩
  · exact UInt8.le_iff_toNat_le.mpr (by simp only [tag, UInt8.reduceToNat]; omega)
  · exact UInt8.lt_iff_toNat_lt.mpr (by simp only [tag, UInt8.reduceToNat]; omega)

theorem longForm_list {n : Nat} (fits : n < 2 ^ 64) : LongForm (0xF7 + (intsize n).toUInt8) .list (intsize n) := by
  have one := one_le_intsize n
  have eight := intsize_le_eight fits
  have tag : (0xF7 + (intsize n).toUInt8 : UInt8).toNat = (0xF7 : UInt8).toNat + intsize n :=
    toNat_tag_add (by simp only [UInt8.reduceToNat]; omega)
  refine .inr ⟨?_, rfl, (toNat_tag_sub (by omega)).symm⟩
  exact UInt8.le_iff_toNat_le.mpr (by simp only [tag, UInt8.reduceToNat]; omega)

/-- The encoding of an item is a header, then its content; the header is one `readKind`
accepts, of the item's kind and the content's size. -/
theorem header_encode (item : Item) (rest : List UInt8) (fits : item.content.length < 2 ^ 64) :
    ∃ head, item.encode = head ++ item.content ∧
      Header (head ++ (item.content ++ rest)) item.kind head.length item.content.length := by
  cases item with
  | str b =>
    rw [content_str] at fits
    rw [encode_str, kind_str, content_str]
    by_cases single : b.length = 1 ∧ b.headD 0 ≤ 0x7F
    · -- a byte up to 0x7F is its own encoding, with no header
      rw [if_pos single, if_pos single]
      obtain ⟨one, low⟩ := single
      match b, one with
      | [x], _ =>
        refine ⟨[], rfl, Header.byte (UInt8.lt_iff_toNat_lt.mpr ?_)⟩
        simp only [List.headD_cons, UInt8.le_iff_toNat_le, UInt8.reduceToNat] at low
        simp only [UInt8.reduceToNat]
        omega
    · rw [if_neg single, if_neg single]
      refine ⟨_, rfl, ?_⟩
      by_cases short : b.length < 56
      · exact header_short_string short single
      · exact header_long (by omega) (longForm_string fits)
  | list items =>
    rw [content_list] at fits
    rw [encode_list, kind_list, content_list]
    refine ⟨_, rfl, ?_⟩
    by_cases short : (Item.encodeAll items).length < 56
    · exact header_short_list short
    · exact header_long (by omega) (longForm_list fits)

/-- `Split` takes the encoding of an item back apart: its kind, its content, and
whatever followed it. The content must have a size of at most eight bytes. -/
theorem split_encode (item : Item) (rest : List UInt8) (fits : item.content.length < 2 ^ 64) :
    split (item.encode ++ rest) = .ok (item.kind, item.content, rest) := by
  obtain ⟨head, encoded, header⟩ := header_encode item rest fits
  rw [encoded, List.append_assoc]
  exact split_of_header header

theorem split_encode_list :
    (Item.list [.str [1, 2], .str [0x80]]).content.length < 2 ^ 64 ∧
      split ((Item.list [.str [1, 2], .str [0x80]]).encode ++ [7]) =
        .ok ((Item.list [.str [1, 2], .str [0x80]]).kind, (Item.list [.str [1, 2], .str [0x80]]).content, [7]) :=
  ⟨by decide, split_encode _ _ (by decide)⟩

/-- Reading a header and skipping its content steps over one item's encoding. -/
theorem countValues_encode_append (item : Item) (rest : List UInt8) (fits : item.content.length < 2 ^ 64) :
    countValues (item.encode ++ rest) = (countValues rest).map (· + 1) := by
  obtain ⟨head, encoded, header⟩ := header_encode item rest fits
  rw [encoded, List.append_assoc, countValues_of_readKind (readKind_of_header header),
    List.drop_length_add_append, List.drop_left]

/-- `CountValues` counts the items in the content of a list. -/
theorem countValues_encodeAll (items : List Item) (fits : ∀ item ∈ items, item.content.length < 2 ^ 64) :
    countValues (Item.encodeAll items) = .ok items.length := by
  induction items with
  | nil => exact countValues_nil
  | cons item items ih =>
    have rest := ih fun other mem => fits other (List.mem_cons_of_mem item mem)
    rw [encodeAll_cons, countValues_encode_append item _ (fits item List.mem_cons_self), rest]
    rfl

/-- The content of a list of two strings holds two values. -/
theorem countValues_encodeAll_two :
    (∀ item ∈ [Item.str [1, 2], .str [0x80]], item.content.length < 2 ^ 64) ∧
      countValues (Item.encodeAll [.str [1, 2], .str [0x80]]) = .ok 2 :=
  ⟨by decide, countValues_encodeAll _ (by decide)⟩

end TomoChain.Rlp
