import Mathlib

set_option autoImplicit false

/-! Decimal text as bytes, the way Go's `strconv` and `bytes` packages read it: the
UTF-8 bytes of Lean's `toString` of an integer, `strconv.Atoi` on them, and
`bytes.Trim` with a one-byte cutset. Packing numbers as left-padded text needs two
facts of these: `Atoi` reads back what `toString` wrote, and the text has no zero
byte for the trim to eat. -/
namespace TomoChain.Lib

/-- `ByteArray.toList` reads the array from the front, so it is the array's list. -/
theorem byteArray_toList (bs : ByteArray) : bs.toList = bs.data.toList := by
  suffices h : ∀ i r, ByteArray.toList.loop bs i r = r.reverse ++ bs.data.toList.drop i from
    (h 0 []).trans (by simp)
  intro i r
  fun_induction ByteArray.toList.loop bs i r with
  | case1 i r lt ih =>
    rw [ih, List.reverse_cons, List.append_assoc]
    have inside : i < bs.data.toList.length := by simpa using lt
    rw [List.drop_eq_getElem_cons inside]
    simp [ByteArray.get!, lt]
  | case2 i r ge =>
    rw [List.drop_eq_nil_of_le (by simpa using ge), List.append_nil]

/-- A character of the ASCII range is one UTF-8 byte, its code. -/
theorem utf8EncodeChar_ascii {c : Char} (ascii : c.val ≤ 127) :
    String.utf8EncodeChar c = [c.val.toUInt8] := by
  apply String.utf8EncodeChar_eq_singleton
  simp [Char.utf8Size, ascii]

/-- The bytes of ASCII text are the characters' codes. -/
theorem toUTF8_ascii {l : List Char} (ascii : ∀ c ∈ l, c.val ≤ 127) :
    (String.ofList l).toUTF8.toList = l.map Char.toUInt8 := by
  rw [byteArray_toList, String.toUTF8_eq_toByteArray, String.toByteArray_ofList]
  induction l with
  | nil => simp
  | cons c l ih =>
    rw [List.utf8Encode_cons, ByteArray.toList_data_append, ih fun d mem => ascii d (by simp [mem]),
      List.utf8Encode_singleton, utf8EncodeChar_ascii (ascii c (by simp)),
      List.toList_data_toByteArray, List.map_cons, List.singleton_append]
    rfl

theorem digit_ascii {c : Char} (digit : c.isDigit) : c.val ≤ 127 := by
  have small : c.toNat ≤ 57 := (Char.isDigit_iff_toNat.mp digit).2
  rw [UInt32.le_iff_toNat_le]
  exact Nat.le_trans small (by decide)

/-- `toString` of an integer: a minus sign for a negative one, then the decimal digits
of its magnitude. -/
theorem toString_int (x : Int) :
    toString x = String.ofList ((if 0 ≤ x then [] else ['-']) ++ Nat.toDigits 10 x.natAbs) := by
  rw [Int.toString_eq_repr, Int.repr_eq_if, Nat.repr_eq_ofList_toDigits]
  split
  · rw [List.nil_append, show x.toNat = x.natAbs by omega]
  · rw [String.ofList_append, Nat.repr_eq_ofList_toDigits, show (-x).toNat = x.natAbs by omega]

/-- The bytes of `toString` of an integer: `'-'` (45) for a negative one, then the
digits' codes. -/
theorem toString_bytes (x : Int) :
    (toString x).toUTF8.toList =
      (if 0 ≤ x then [] else [45]) ++ (Nat.toDigits 10 x.natAbs).map Char.toUInt8 := by
  have digits : ∀ c ∈ Nat.toDigits 10 x.natAbs, c.val ≤ 127 := fun c mem =>
    digit_ascii (Nat.isDigit_of_mem_toDigits (by decide) (by decide) mem)
  rw [toString_int, toUTF8_ascii, List.map_append]
  · split <;> rfl
  · intro c mem
    rw [List.mem_append] at mem
    rcases mem with sign | digit
    · split at sign
      · simp at sign
      · rw [List.mem_singleton.mp sign]
        decide
    · exact digits c digit

/-- The text of an integer is as many bytes as characters. -/
theorem length_toString_bytes (x : Int) : (toString x).toUTF8.toList.length = (toString x).length := by
  rw [toString_bytes, toString_int, String.length_ofList]
  split <;> simp

/-- A natural number below `10 ^ width` has at most `width` characters. -/
theorem length_toString_of_lt {k width : Nat} (pos : 0 < width) (small : k < 10 ^ width) :
    (toString (k : Int)).length ≤ width := by
  rw [toString_int, String.length_ofList, if_pos (Int.natCast_nonneg k), List.nil_append,
    Int.natAbs_natCast]
  exact (Nat.length_toDigits_le_iff (by decide) pos).mpr small

theorem digit_byte {c : Char} (digit : c.isDigit) :
    c.toUInt8 - 48 ≤ 9 ∧ (c.toUInt8 - 48).toNat = c.toNat - 48 := by
  obtain ⟨lo, hi⟩ := Char.isDigit_iff_toNat.mp digit
  have code : c.toUInt8.toNat = c.toNat := by
    have val : c.toNat = c.val.toNat := rfl
    rw [Char.toUInt8, UInt32.toNat_toUInt8]
    exact Nat.mod_eq_of_lt (by simp at hi; omega)
  have le : (48 : UInt8) ≤ c.toUInt8 := by
    rw [UInt8.le_iff_toNat_le, code]
    simpa using lo
  rw [UInt8.le_iff_toNat_le, UInt8.toNat_sub_of_le _ _ le, code]
  simp at lo hi
  constructor
  · simp
    omega
  · simp

/-- No byte of an integer's text is zero. -/
theorem zero_not_mem_toString_bytes (x : Int) : (0 : UInt8) ∉ (toString x).toUTF8.toList := by
  rw [toString_bytes, List.mem_append]
  rintro (sign | digit)
  · split at sign <;> simp at sign
  · obtain ⟨c, mem, zero⟩ := List.mem_map.mp digit
    have := (digit_byte (Nat.isDigit_of_mem_toDigits (by decide) (by decide) mem)).1
    rw [zero] at this
    exact absurd this (by decide)

/-! ## `strconv.Atoi` -/

/-- The digit loop of `strconv.Atoi`'s fast path: `ch -= '0'` on the byte, a syntax
error above 9, and `n = n*10 + int(ch)`. -/
def atoiDigits : List UInt8 → Int → Option Int
  | [], n => some n
  | ch :: s, n =>
    let ch := ch - 48
    if ch > 9 then none else atoiDigits s (n * 10 + ch.toNat)

/-- `strconv.Atoi` on text shorter than 19 bytes, which takes its fast path, with the
syntax error as `none`: an optional sign (`'-'` is 45, `'+'` is 43) and at least one
digit. Empty text is the slow path's (`ParseInt`) syntax error. -/
def atoi (s0 : List UInt8) : Option Int :=
  match s0 with
  | [] => none
  | c :: rest =>
    let signed := c = 45 ∨ c = 43
    let s := if signed then rest else s0
    if signed ∧ s.length < 1 then none
    else (atoiDigits s 0).map fun n => if c = 45 then -n else n

theorem atoiDigits_digits (l : List Char) (digits : ∀ c ∈ l, c.isDigit) (init : Nat) :
    atoiDigits (l.map Char.toUInt8) init = some ((Nat.ofDigitChars 10 l init : Nat) : Int) := by
  induction l generalizing init with
  | nil => rfl
  | cons c l ih =>
    obtain ⟨le, code⟩ := digit_byte (digits c (by simp))
    have next := ih (fun d mem => digits d (by simp [mem])) (10 * init + (c.toNat - 48))
    rw [List.map_cons, atoiDigits, if_neg (by simpa using le), code, Nat.ofDigitChars_cons,
      show '0'.toNat = 48 from rfl]
    rw [show (init : Int) * 10 + ((c.toNat - 48 : Nat) : Int) = ((10 * init + (c.toNat - 48) : Nat) : Int) by
      omega]
    exact next

/-- `Atoi` reads back the text `toString` writes. -/
theorem atoi_toString (x : Int) : atoi (toString x).toUTF8.toList = some x := by
  have digits : ∀ c ∈ Nat.toDigits 10 x.natAbs, c.isDigit := fun c mem =>
    Nat.isDigit_of_mem_toDigits (by decide) (by decide) mem
  have read := atoiDigits_digits _ digits 0
  rw [Nat.ofDigitChars_ten_toDigits, show ((0 : Nat) : Int) = 0 from rfl] at read
  have nonempty : Nat.toDigits 10 x.natAbs ≠ [] := Nat.toDigits_ne_nil
  obtain ⟨d, ds, cons⟩ := List.exists_cons_of_ne_nil nonempty
  have first : d.toUInt8 - 48 ≤ 9 := (digit_byte (digits d (by simp [cons]))).1
  rw [toString_bytes]
  split
  · rw [List.nil_append, cons, List.map_cons, atoi]
    have unsigned : ¬(d.toUInt8 = 45 ∨ d.toUInt8 = 43) := by
      rintro (minus | plus)
      · rw [minus] at first; exact absurd first (by decide)
      · rw [plus] at first; exact absurd first (by decide)
    rw [if_neg unsigned, if_neg (fun h => unsigned h.1), ← List.map_cons, ← cons, read]
    simp [show ¬d.toUInt8 = 45 from fun h => unsigned (.inl h)]
    omega
  · rw [List.singleton_append, atoi]
    have signed : ((45 : UInt8) = 45 ∨ (45 : UInt8) = 43) := .inl rfl
    have long : ¬((Nat.toDigits 10 x.natAbs).map Char.toUInt8).length < 1 := by
      simp [cons]
    rw [if_pos signed, if_neg (fun h => long h.2), read, Option.map_some, if_pos rfl]
    congr 1
    omega

/-! ## `bytes.Trim` -/

/-- `bytes.Trim(s, string(c))` for a one-byte cutset: `trimRightByte`, then
`trimLeftByte`. -/
def trimByte (s : List UInt8) (c : UInt8) : List UInt8 :=
  ((s.reverse.dropWhile (· == c)).reverse).dropWhile (· == c)

/-- Trimming the pad of left-padded text that holds no pad byte gives the text back. -/
theorem trimByte_leftPad (pad : Nat) (text : List UInt8) (c : UInt8) (nonempty : text ≠ [])
    (clean : c ∉ text) : trimByte (List.replicate pad c ++ text) c = text := by
  obtain ⟨rest, last, snoc⟩ := List.eq_nil_or_concat text |>.resolve_left nonempty
  obtain ⟨first, tail, cons⟩ := List.exists_cons_of_ne_nil nonempty
  have right : (List.replicate pad c ++ text).reverse.dropWhile (· == c) =
      (List.replicate pad c ++ text).reverse := by
    rw [snoc, List.concat_eq_append, ← List.append_assoc, List.reverse_concat]
    apply List.dropWhile_cons_of_neg
    rw [beq_iff_eq]
    rintro rfl
    exact clean (by rw [snoc]; simp)
  have left : ∀ k, (List.replicate k c ++ text).dropWhile (· == c) = text := by
    intro k
    induction k with
    | zero =>
      rw [List.replicate_zero, List.nil_append, cons]
      apply List.dropWhile_cons_of_neg
      rw [beq_iff_eq]
      rintro rfl
      exact clean (cons ▸ List.mem_cons_self)
    | succ k ih =>
      rw [List.replicate_succ, List.cons_append, List.dropWhile_cons_of_pos (by simp), ih]
  rw [trimByte, right, List.reverse_reverse, left]

end TomoChain.Lib
