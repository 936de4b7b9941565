import Mathlib
import TomoChain.Lib.Bytes

set_option autoImplicit false

/-! Byte-array types of `common/types.go` as their big-endian values. An `Address`
is 20 bytes and a `Hash` is 32 bytes; the byte order of `bytes.Compare` on two
arrays of one length is the numeric order of these values. -/
namespace TomoChain

/-- `common.Address`. -/
abbrev Address := Fin (2 ^ 160)

/-- `common.Hash`, the 32-byte word of storage slots, trie keys and roots. -/
abbrev Hash := Fin (2 ^ 256)

/-! Named instances for the widths, so that every numeral, `Fin.ofNat` and membership
test of these types uses one and the same proof of them. -/

instance addressWidth_neZero : NeZero (2 ^ 160) := NeZero.of_pos (Nat.two_pow_pos 160)

instance hashWidth_neZero : NeZero (2 ^ 256) := NeZero.of_pos (Nat.two_pow_pos 256)

instance Address.lawfulBEq : LawfulBEq Address := inferInstance

/-- `common.BigToHash`: the low 32 bytes of `big.Int.Bytes`, which is the
big-endian magnitude, so the sign of a negative value is dropped. -/
def bigToHash (b : Int) : Hash := Fin.ofNat _ b.natAbs

/-- `common.EmptyHash`: the all-zero word. -/
def emptyHash (h : Hash) : Bool := h = 0

theorem bigToHash_of_lt (n : Nat) (bound : n < 2 ^ 256) : (bigToHash n).val = n := by
  simp only [bigToHash, Int.natAbs_natCast, Fin.val_ofNat]
  exact Nat.mod_eq_of_lt bound

/-- `Hash.Bytes`: the 32 bytes of a word. -/
def Hash.toBytes (h : Hash) : List UInt8 := Lib.toBytesBE 32 h.val

/-- `Address.Hash`: the address left-padded to a word. -/
def Address.hash (a : Address) : Hash := Fin.castLE (Nat.pow_le_pow_right (by decide) (by decide)) a

/-- `common.BytesToHash`: the last 32 bytes of `b`, left-padded with zeros. -/
def bytesToHash (b : List UInt8) : Hash := Fin.ofNat _ (Lib.ofBytesBE (b.drop (b.length - 32)))

/-- `common.BytesToAddress`: the last 20 bytes of `b`, left-padded with zeros. -/
def bytesToAddress (b : List UInt8) : Address := Fin.ofNat _ (Lib.ofBytesBE (b.drop (b.length - 20)))

/-- `common.Hex2Bytes`: the bytes `hex.DecodeString` returns, its error ignored. -/
def hex2Bytes (str : String) : List UInt8 := (Lib.Hex.decodeString str).1

/-- `common.LeftPadBytes`: zeros in front of `slice` up to length `l`. -/
def leftPadBytes (slice : List UInt8) (l : Nat) : List UInt8 :=
  if l ≤ slice.length then slice else List.replicate (l - slice.length) 0 ++ slice

/-! ## Address lists packed into header bytes -/

/-- `common.AddressLength`. -/
def addressLength : Nat := 20

/-- `a[:]`, the 20 bytes of an address. -/
def Address.toBytes (a : Address) : List UInt8 := Lib.toBytesBE addressLength a.val

/-- The address `copy(a[:], bytes)` writes into a zero address: the first 20 bytes
of `bytes`, with zeros after a shorter slice. -/
def addressOfBytes (bytes : List UInt8) : Address :=
  Fin.ofNat _ (Lib.ofBytesBE (Lib.copyInto (List.replicate addressLength 0) bytes))

/-- `RemoveItemFromArray`. For each item the inner loop walks the array from the
back and deletes every element equal to it, so it filters the item out. -/
def removeItemFromArray (array items : List Address) : List Address :=
  if items.length = 0 then array
  else items.foldl (fun array item => array.filter (fun a => a ≠ item)) array

/-- `ExtractAddressToBytes`: the bytes of the addresses, one after the other. -/
def extractAddressToBytes (penalties : List Address) : List UInt8 :=
  penalties.flatMap Address.toBytes

/-- `ExtractAddressFromBytes`: one address per whole 20-byte chunk; a trailing
partial chunk is dropped. -/
def extractAddressFromBytes (bytePenalties : List UInt8) : List Address :=
  if bytePenalties ≠ [] ∧ bytePenalties.length < addressLength then []
  else (List.range (bytePenalties.length / addressLength)).map
    fun i => addressOfBytes (bytePenalties.drop (i * addressLength))

@[simp] theorem length_toBytes (a : Address) : a.toBytes.length = addressLength := by
  simp [Address.toBytes]

theorem addressOfBytes_toBytes_append (a : Address) (rest : List UInt8) :
    addressOfBytes (a.toBytes ++ rest) = a := by
  have whole : Lib.copyInto (List.replicate addressLength 0) (a.toBytes ++ rest) = a.toBytes := by
    rw [Lib.copyInto_of_length_le _ _ (by simp), List.length_replicate,
      List.take_append_of_le_length (by simp), ← length_toBytes a, List.take_length]
  have fits : a.val < 256 ^ addressLength := a.isLt
  apply Fin.ext
  rw [addressOfBytes, whole, Address.toBytes, Lib.ofBytesBE_toBytesBE_of_lt fits, Fin.val_ofNat,
    Nat.mod_eq_of_lt a.isLt]

@[simp] theorem length_extractAddressToBytes (penalties : List Address) :
    (extractAddressToBytes penalties).length = addressLength * penalties.length := by
  induction penalties with
  | nil => rfl
  | cons a rest ih =>
    simp only [extractAddressToBytes, List.flatMap_cons, List.length_append, length_toBytes] at ih ⊢
    rw [ih, List.length_cons, Nat.mul_succ, Nat.add_comm]

/-- The chunk loop of `ExtractAddressFromBytes` reads back packed addresses; the
induction is on the list, each step dropping the first address's 20 bytes. -/
theorem chunks_extractAddressToBytes (penalties : List Address) :
    (List.range penalties.length).map
      (fun i => addressOfBytes ((extractAddressToBytes penalties).drop (i * addressLength))) =
      penalties := by
  induction penalties with
  | nil => rfl
  | cons a rest ih =>
    have tail : ∀ i, (extractAddressToBytes (a :: rest)).drop ((i + 1) * addressLength) =
        (extractAddressToBytes rest).drop (i * addressLength) := by
      intro i
      rw [extractAddressToBytes, List.flatMap_cons, Nat.succ_mul, Nat.add_comm, ← List.drop_drop,
        List.drop_left' (length_toBytes a)]
      rfl
    rw [List.length_cons, List.range_succ_eq_map, List.map_cons, List.map_map]
    simp only [Function.comp_def, tail, ih, Nat.zero_mul, List.drop_zero]
    rw [extractAddressToBytes, List.flatMap_cons, addressOfBytes_toBytes_append]

/-- Packing addresses into bytes and extracting them gives the list back, `nil`
and an empty list alike. -/
theorem extractAddressFromBytes_extractAddressToBytes (penalties : List Address) :
    extractAddressFromBytes (extractAddressToBytes penalties) = penalties := by
  have length := length_extractAddressToBytes penalties
  have whole : ¬ (extractAddressToBytes penalties ≠ [] ∧
      (extractAddressToBytes penalties).length < addressLength) := by
    rintro ⟨nonempty, short⟩
    apply nonempty
    rw [← List.length_eq_zero_iff]
    simp only [length, addressLength] at short ⊢
    omega
  rw [extractAddressFromBytes, if_neg whole, length, Nat.mul_div_cancel_left _ (by decide)]
  exact chunks_extractAddressToBytes penalties

theorem foldl_filter_ne (array items : List Address) :
    items.foldl (fun array item => array.filter (fun a => a ≠ item)) array =
      array.filter (fun a => a ∉ items) := by
  induction items generalizing array with
  | nil => simp
  | cons item rest ih =>
    rw [List.foldl_cons, ih, List.filter_filter]
    congr 1
    funext a
    simp [Bool.and_comm]

theorem removeItemFromArray_eq_filter (array items : List Address) :
    removeItemFromArray array items = array.filter (fun a => a ∉ items) := by
  unfold removeItemFromArray
  split
  · next empty =>
    rw [List.length_eq_zero_iff.mp empty]
    simp
  · exact foldl_filter_ne array items

end TomoChain
