import Mathlib

set_option autoImplicit false

/-! The key encodings of `trie/encoding.go`. A key of the trie API is a byte string
(KEYBYTES); in memory the trie works on its HEX encoding, one nibble per element and
the terminator 16 at the end. A nibble is a `Fin 17` here: every hex key the code
builds holds nibbles below 16 and the terminator, and the 17 children of a full node
are indexed by them. -/
namespace TomoChain.Mpt

/-- A hex nibble, or the terminator 16. -/
abbrev Nibble := Fin 17

instance nibbleCount_neZero : NeZero (17 : Nat) := NeZero.of_pos (by decide)

/-- The high and the low nibble of a byte. -/
def byteNibbles (b : UInt8) : List Nibble :=
  [⟨b.toNat / 16, by have := b.toNat_lt; omega⟩, ⟨b.toNat % 16, by omega⟩]

/-- `keybytesToHex`. -/
def keybytesToHex (str : List UInt8) : List Nibble := str.flatMap byteNibbles ++ [16]

/-- `hasTerm`. -/
def hasTerm (s : List Nibble) : Bool := s.getLast? = some 16

/-- `decodeNibbles`: each pair of nibbles makes a byte, `nibbles[ni]<<4 | nibbles[ni+1]`. -/
def decodeNibbles : List Nibble → List UInt8
  | high :: low :: rest => ((high.val.toUInt8 <<< 4) ||| low.val.toUInt8) :: decodeNibbles rest
  | _ => []

/-- `hexToKeybytes`, with `none` where the code panics on an odd length. -/
def hexToKeybytes (hex : List Nibble) : Option (List UInt8) :=
  let hex := if hasTerm hex then hex.dropLast else hex
  if hex.length % 2 ≠ 0 then none else some (decodeNibbles hex)

/-- `prefixLen`: the length of the common prefix. -/
def prefixLen : List Nibble → List Nibble → Nat
  | x :: xs, y :: ys => if x = y then prefixLen xs ys + 1 else 0
  | _, _ => 0

theorem prefixLen_nil (b : List Nibble) : prefixLen [] b = 0 := rfl

theorem prefixLen_cons_nil (x : Nibble) (xs : List Nibble) : prefixLen (x :: xs) [] = 0 := rfl

theorem prefixLen_cons_cons (x y : Nibble) (xs ys : List Nibble) :
    prefixLen (x :: xs) (y :: ys) = if x = y then prefixLen xs ys + 1 else 0 := rfl

/-- A hex key of a byte key: nibbles below 16, then the terminator. -/
def IsHexKey (k : List Nibble) : Prop := ∃ str, k = keybytesToHex str

/-! ## Lemmas -/

@[simp] theorem length_byteNibbles (b : UInt8) : (byteNibbles b).length = 2 := rfl

theorem length_keybytesToHex (str : List UInt8) : (keybytesToHex str).length = 2 * str.length + 1 := by
  induction str with
  | nil => rfl
  | cons b rest ih =>
    simp only [keybytesToHex, List.flatMap_cons, List.length_append, length_byteNibbles,
      List.length_cons] at ih ⊢
    omega

/-- Two nibbles below 16 make the byte `16 * high + low`. -/
theorem combine_nibbles : ∀ high low : Fin 16,
    ((high.val.toUInt8 <<< 4) ||| low.val.toUInt8) = (16 * high.val + low.val).toUInt8 := by
  decide

theorem decodeNibbles_byteNibbles (b : UInt8) (rest : List Nibble) :
    decodeNibbles (byteNibbles b ++ rest) = b :: decodeNibbles rest := by
  simp only [byteNibbles, List.cons_append, List.nil_append, decodeNibbles, List.cons.injEq, and_true]
  have fits := b.toNat_lt
  have combined := combine_nibbles ⟨b.toNat / 16, by omega⟩ ⟨b.toNat % 16, by omega⟩
  simp only at combined
  rw [combined, Nat.div_add_mod]
  exact UInt8.ofNat_toNat

theorem decodeNibbles_flatMap (str : List UInt8) : decodeNibbles (str.flatMap byteNibbles) = str := by
  induction str with
  | nil => rfl
  | cons b rest ih => rw [List.flatMap_cons, decodeNibbles_byteNibbles, ih]

/-- The hex key of a byte key decodes back to it. -/
theorem hexToKeybytes_keybytesToHex (str : List UInt8) : hexToKeybytes (keybytesToHex str) = some str := by
  have even : (str.flatMap byteNibbles).length % 2 = 0 := by
    have := length_keybytesToHex str
    simp only [keybytesToHex, List.length_append, List.length_singleton] at this
    omega
  have term : hasTerm (str.flatMap byteNibbles ++ [16]) = true := by simp [hasTerm]
  unfold hexToKeybytes keybytesToHex
  simp only [term, if_true, List.dropLast_concat, even, ne_eq, not_true_eq_false, if_false, decodeNibbles_flatMap]

theorem prefixLen_le_left (a b : List Nibble) : prefixLen a b ≤ a.length := by
  induction a generalizing b with
  | nil => simp [prefixLen_nil]
  | cons x xs ih =>
    cases b with
    | nil => simp [prefixLen_cons_nil]
    | cons y ys =>
      simp only [prefixLen_cons_cons, List.length_cons]
      split
      · exact Nat.succ_le_succ (ih ys)
      · omega

theorem prefixLen_le_right (a b : List Nibble) : prefixLen a b ≤ b.length := by
  induction a generalizing b with
  | nil => simp [prefixLen_nil]
  | cons x xs ih =>
    cases b with
    | nil => simp [prefixLen_cons_nil]
    | cons y ys =>
      simp only [prefixLen_cons_cons, List.length_cons]
      split
      · exact Nat.succ_le_succ (ih ys)
      · omega

/-- The two keys agree up to their common prefix length. -/
theorem take_prefixLen (a b : List Nibble) : a.take (prefixLen a b) = b.take (prefixLen a b) := by
  induction a generalizing b with
  | nil => simp [prefixLen_nil]
  | cons x xs ih =>
    cases b with
    | nil => simp [prefixLen_cons_nil]
    | cons y ys =>
      simp only [prefixLen_cons_cons]
      split
      · next same => simp [same, ih ys]
      · simp

/-- Where the common prefix ends short of both keys, they differ. -/
theorem getElem_prefixLen_ne {a b : List Nibble} (ha : prefixLen a b < a.length) (hb : prefixLen a b < b.length) :
    a[prefixLen a b] ≠ b[prefixLen a b] := by
  induction a generalizing b with
  | nil => simp at ha
  | cons x xs ih =>
    cases b with
    | nil => simp at hb
    | cons y ys =>
      simp only [prefixLen_cons_cons] at ha hb ⊢
      split
      · next same =>
        simp only [same, ↓reduceIte, List.length_cons, Nat.add_lt_add_iff_right] at ha hb ⊢
        simpa using ih ha hb
      · next differ =>
        simpa using differ

/-- A key is its own common prefix with any key it is a prefix of. -/
theorem prefixLen_append (a rest : List Nibble) : prefixLen a (a ++ rest) = a.length := by
  induction a with
  | nil => simp [prefixLen_nil]
  | cons x xs ih => simp [prefixLen_cons_cons, ih]

theorem prefixLen_comm (a b : List Nibble) : prefixLen a b = prefixLen b a := by
  induction a generalizing b with
  | nil => cases b <;> rfl
  | cons x xs ih =>
    cases b with
    | nil => rfl
    | cons y ys => simp only [prefixLen_cons_cons, ih ys, eq_comm]

/-- The common prefix with a prefix of the key is the whole prefix. -/
theorem prefixLen_whole {key nkey : List Nibble} (pre : nkey <+: key) : prefixLen key nkey = nkey.length := by
  obtain ⟨rest, rfl⟩ := pre
  rw [prefixLen_comm, prefixLen_append]

/-- Where the whole of `nkey` is common, the key continues it. -/
theorem eq_append_of_prefixLen {key nkey : List Nibble} (matched : prefixLen key nkey = nkey.length) :
    key = nkey ++ key.drop nkey.length := by
  have common := take_prefixLen key nkey
  rw [matched, List.take_length] at common
  calc key = key.take nkey.length ++ key.drop nkey.length := (List.take_append_drop _ _).symm
    _ = nkey ++ key.drop nkey.length := by rw [common]

/-- Two keys that part before either ends: the common prefix, then different nibbles. -/
theorem split_at_prefixLen {key nkey : List Nibble} (inNkey : prefixLen key nkey < nkey.length)
    (inKey : prefixLen key nkey < key.length) :
    nkey = key.take (prefixLen key nkey) ++ nkey.getD (prefixLen key nkey) 0 :: nkey.drop (prefixLen key nkey + 1) ∧
      key = key.take (prefixLen key nkey) ++ key.getD (prefixLen key nkey) 0 :: key.drop (prefixLen key nkey + 1) ∧
      nkey.getD (prefixLen key nkey) 0 ≠ key.getD (prefixLen key nkey) 0 := by
  have common := take_prefixLen key nkey
  have differ := getElem_prefixLen_ne inKey inNkey
  simp only [List.getD_eq_getElem?_getD, List.getElem?_eq_getElem inKey, List.getElem?_eq_getElem inNkey,
    Option.getD_some]
  refine ⟨?_, ?_, fun same => differ same.symm⟩
  · rw [common, ← List.drop_eq_getElem_cons inNkey, List.take_append_drop]
  · rw [← List.drop_eq_getElem_cons inKey, List.take_append_drop]

/-- Byte keys of one length compare as their hex keys do: the high nibble decides, then
the low one, then the rest. -/
theorem lt_of_keybytesToHex_lt : ∀ {a b : List UInt8}, a.length = b.length →
    keybytesToHex a < keybytesToHex b → a < b
  | [], [], _, less => absurd less (List.lt_irrefl _)
  | [], _ :: _, same, _ => by simp at same
  | _ :: _, [], same, _ => by simp at same
  | x :: xs, y :: ys, same, less => by
    have rest : xs.length = ys.length := by simpa using same
    simp only [keybytesToHex, List.flatMap_cons, byteNibbles, List.cons_append, List.nil_append] at less
    rw [List.cons_lt_cons_iff, List.cons_lt_cons_iff] at less
    rw [List.cons_lt_cons_iff, UInt8.lt_iff_toNat_lt]
    rcases less with high | ⟨highSame, low | ⟨lowSame, tail⟩⟩
    · rw [Fin.lt_def] at high
      simp only at high
      exact .inl (by omega)
    · have highs := congrArg Fin.val highSame
      rw [Fin.lt_def] at low
      simp only at highs low
      exact .inl (by omega)
    · have highs := congrArg Fin.val highSame
      have lows := congrArg Fin.val lowSame
      simp only at highs lows
      exact .inr ⟨UInt8.toNat_inj.mp (by omega), lt_of_keybytesToHex_lt rest tail⟩

theorem keybytesToHex_inj {a b : List UInt8} (same : keybytesToHex a = keybytesToHex b) : a = b := by
  have decoded := congrArg hexToKeybytes same
  rwa [hexToKeybytes_keybytesToHex, hexToKeybytes_keybytesToHex, Option.some_inj] at decoded

end TomoChain.Mpt
