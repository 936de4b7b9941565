import Mathlib
import TomoChain.Rlp.Decode
import TomoChain.Lib.Except

set_option autoImplicit false

/-! The raw splitting of `rlp/raw.go` (`Split`, `SplitString`, `SplitList` with
`readKind` and `readSize`) against the `Stream` of `Decode`. Both read the same header
grammar, `Header`, but place its checks differently: `readKind` refuses a one-byte
string holding a small byte where the `Stream` leaves that to `Bytes`, and a single
byte has content size 1 in `Split` and size 0 in `Kind`. A header is read by `Split`
exactly when it is read by the `Stream`, with the same content and rest. -/
namespace TomoChain.Rlp

open Lib

/-- `readSize`: `slen` bytes of a long header, big-endian, refused below 56 or with a
leading zero byte. -/
def readSize (b : List UInt8) (slen : Nat) : Except RlpError Nat :=
  if slen > b.length then throw .unexpectedEOF
  else
    -- the `switch` on `slen` shifts the bytes together, the first the most significant
    let s := ofBytesBE (b.take slen)
    if s < 56 ∨ b.headD 0 = 0 then throw .canonSize
    else pure s

/-- `readKind` of `raw.go`: the kind, the header size and the content size of the first
value of `buf`. -/
def readKind (buf : List UInt8) : Except RlpError (Kind × Nat × Nat) :=
  match buf with
  | [] => throw .unexpectedEOF
  | b :: rest => do
    let (k, tagsize, contentsize) ← (
      if b < 0x80 then pure (Kind.byte, 0, 1)
      else if b < 0xB8 then
        let contentsize := (b - 0x80).toNat
        -- strings that should have been single bytes
        if contentsize = 1 ∧ buf.length > 1 ∧ rest.headD 0 < 128 then throw .canonSize
        else pure (.string, 1, contentsize)
      else if b < 0xC0 then do
        let contentsize ← readSize rest (b - 0xB7).toNat
        pure (.string, (b - 0xB7).toNat + 1, contentsize)
      else if b < 0xF8 then pure (.list, 1, (b - 0xC0).toNat)
      else do
        let contentsize ← readSize rest (b - 0xF7).toNat
        pure (.list, (b - 0xF7).toNat + 1, contentsize) : Except RlpError (Kind × Nat × Nat))
    -- values larger than the input slice
    if contentsize > buf.length - tagsize then throw .valueTooLarge
    pure (k, tagsize, contentsize)

/-- `Split`: the kind, the content and the rest of the first value of `b`. -/
def split (b : List UInt8) : Except RlpError (Kind × List UInt8 × List UInt8) := do
  let (k, ts, cs) ← readKind b
  pure (k, (b.drop ts).take cs, b.drop (ts + cs))

theorem run_throw' {ε σ α : Type} (e : ε) (s : σ) : (throw e : EStateM ε σ α).run s = .error e s := rfl

theorem headD_take {l : List UInt8} {n : Nat} (pos : 0 < n) : (l.take n).headD 0 = l.headD 0 := by
  match l, n with
  | [], _ => simp
  | y :: l, n + 1 => simp

theorem drop_one_add (x : UInt8) (rest : List UInt8) (n : Nat) : (x :: rest).drop (1 + n) = rest.drop n := by
  rw [Nat.add_comm]
  rfl

theorem drop_cons_add (x : UInt8) (rest : List UInt8) (a b : Nat) :
    (x :: rest).drop (a + 1 + b) = (rest.drop a).drop b := by
  rw [List.drop_drop, Nat.add_right_comm]
  rfl

section TopLevel

variable (k : Option Kind) (size : Nat) (byteval : UInt8) (kinderr : Option RlpError)

theorem readByte_cons (b : UInt8) (rest : List UInt8) :
    Stream.readByte.run ⟨b :: rest, k, size, byteval, kinderr, []⟩ =
      .ok b ⟨rest, none, size, byteval, kinderr, []⟩ := by
  simp only [Stream.readByte, Stream.willRead, Stream.rearm, EStateM.run_bind, EStateM.run_get]
  rfl

theorem readByte_nil :
    Stream.readByte.run ⟨[], k, size, byteval, kinderr, []⟩ =
      .error .valueTooLarge ⟨[], none, size, byteval, kinderr, []⟩ := by
  simp only [Stream.readByte, Stream.willRead, Stream.rearm, EStateM.run_bind, EStateM.run_get]
  rfl

theorem readFull_top (n : Nat) (input : List UInt8) (enough : n ≤ input.length) :
    (Stream.readFull n).run ⟨input, k, size, byteval, kinderr, []⟩ =
      .ok (input.take n) ⟨input.drop n, none, size, byteval, kinderr, []⟩ := by
  have fits : ¬n > input.length := Nat.not_lt.mpr enough
  simp only [Stream.readFull, Stream.willRead, Stream.rearm, EStateM.run_bind, EStateM.run_get,
    EStateM.run_modify, EStateM.run_set, EStateM.run_pure, fits, if_false]

theorem readFull_short (n : Nat) (input : List UInt8) (short : input.length < n) :
    (Stream.readFull n).run ⟨input, k, size, byteval, kinderr, []⟩ =
      .error .valueTooLarge ⟨input, none, size, byteval, kinderr, []⟩ := by
  have exceeds : n > input.length := short
  simp only [Stream.readFull, Stream.willRead, Stream.rearm, EStateM.run_bind, EStateM.run_get,
    EStateM.run_modify, exceeds, if_true]
  rfl

theorem readUint_top (slen : Nat) (input : List UInt8) (one : 1 ≤ slen) (enough : slen ≤ input.length)
    (canon : ¬(2 ≤ slen ∧ input.headD 0 = 0)) :
    (Stream.readUint slen).run ⟨input, k, size, byteval, kinderr, []⟩ =
      .ok (ofBytesBE (input.take slen)) ⟨input.drop slen, none, size, byteval, kinderr, []⟩ := by
  match slen, input with
  | 1, y :: rest =>
    simp only [Stream.readUint, EStateM.run_bind, readByte_cons]
    simp [ofBytesBE]
  | n + 2, input =>
    simp only [Stream.readUint, EStateM.run_bind, readFull_top k size byteval kinderr _ _ enough,
      headD_take (Nat.succ_pos _)]
    rw [if_neg (fun zero => canon ⟨by omega, zero⟩)]
    rfl

theorem readUint_fails (slen : Nat) (input : List UInt8) (one : 1 ≤ slen)
    (bad : input.length < slen ∨ (2 ≤ slen ∧ input.headD 0 = 0)) :
    ∃ e s, (Stream.readUint slen).run ⟨input, k, size, byteval, kinderr, []⟩ = .error e s := by
  match slen, input with
  | 1, [] =>
    refine ⟨.valueTooLarge, ⟨[], none, size, byteval, kinderr, []⟩, ?_⟩
    simp only [Stream.readUint, EStateM.run_bind, readByte_nil]
  | 1, y :: rest => simp at bad
  | n + 2, input =>
    by_cases short : input.length < n + 2
    · refine ⟨.valueTooLarge, ⟨input, none, size, byteval, kinderr, []⟩, ?_⟩
      simp only [Stream.readUint, EStateM.run_bind, readFull_short k size byteval kinderr _ _ short]
    · have zero : input.headD 0 = 0 := (bad.resolve_left short).2
      refine ⟨.canonSize, ⟨input.drop (n + 2), none, size, byteval, kinderr, []⟩, ?_⟩
      have read := readFull_top k size byteval kinderr (n + 2) input (by omega)
      simp only [Stream.readUint, EStateM.run_bind, read, headD_take (Nat.succ_pos _), zero]
      rfl

end TopLevel

/-! Both parsers test the first byte against 0x80, 0xB8, 0xC0 and 0xF8 in that order;
a byte from a range fails every test before its own. -/

theorem above_longString {x : UInt8} (lo : 0xB8 ≤ x) : ¬x < 0x80 ∧ ¬x < 0xB8 := by
  simp only [UInt8.lt_iff_toNat_lt, UInt8.le_iff_toNat_le, UInt8.reduceToNat] at lo ⊢
  omega

theorem above_shortList {x : UInt8} (lo : 0xC0 ≤ x) : ¬x < 0x80 ∧ ¬x < 0xB8 ∧ ¬x < 0xC0 := by
  simp only [UInt8.lt_iff_toNat_lt, UInt8.le_iff_toNat_le, UInt8.reduceToNat] at lo ⊢
  omega

theorem above_longList {x : UInt8} (lo : 0xF8 ≤ x) :
    ¬x < 0x80 ∧ ¬x < 0xB8 ∧ ¬x < 0xC0 ∧ ¬x < 0xF8 := by
  simp only [UInt8.lt_iff_toNat_lt, UInt8.le_iff_toNat_le, UInt8.reduceToNat] at lo ⊢
  omega

theorem kind_new_nil (v : Kind × Nat) (s : Stream) : Stream.kind.run (Stream.new []) ≠ .ok v s := by
  simp [Stream.kind, Stream.new, Stream.readKind, run_attempt, readByte_nil, run_throw']

theorem kind_new_short (x : UInt8) (rest : List UInt8) {k : Kind} {n : Nat}
    (short : (0x80 ≤ x ∧ x < 0xB8 ∧ k = .string ∧ n = (x - 0x80).toNat) ∨
      (0xC0 ≤ x ∧ x < 0xF8 ∧ k = .list ∧ n = (x - 0xC0).toNat)) :
    Stream.kind.run (Stream.new (x :: rest)) =
      if rest.length < n then .error .valueTooLarge ⟨rest, some k, n, 0, some .valueTooLarge, []⟩
      else .ok (k, n) ⟨rest, some k, n, 0, none, []⟩ := by
  rcases short with ⟨lo, hi, rfl, rfl⟩ | ⟨lo, hi, rfl, rfl⟩
  · simp [Stream.kind, Stream.new, Stream.readKind, run_attempt, readByte_cons, UInt8.not_lt.mpr lo, hi]
    by_cases beyond : rest.length < (x - 0x80).toNat <;> simp only [beyond, if_true, if_false] <;> rfl
  · simp [Stream.kind, Stream.new, Stream.readKind, run_attempt, readByte_cons, above_shortList lo, hi]
    by_cases beyond : rest.length < (x - 0xC0).toNat <;> simp only [beyond, if_true, if_false] <;> rfl

/-- The long form of a header: a first byte from 0xB8 (a string) or from 0xF8 (a list),
followed by `slen` bytes of size. -/
def LongForm (x : UInt8) (k : Kind) (slen : Nat) : Prop :=
  (0xB8 ≤ x ∧ x < 0xC0 ∧ k = .string ∧ slen = (x - 0xB7).toNat) ∨
    (0xF8 ≤ x ∧ k = .list ∧ slen = (x - 0xF7).toNat)

theorem LongForm.one_le {x : UInt8} {k : Kind} {slen : Nat} (form : LongForm x k slen) : 1 ≤ slen := by
  rcases form with ⟨lo, -, -, rfl⟩ | ⟨lo, -, rfl⟩ <;>
  · rw [UInt8.le_iff_toNat_le] at lo
    rw [UInt8.toNat_sub_of_le _ _ (UInt8.le_trans (by decide) lo)]
    simp at lo ⊢
    omega

/-- `Kind` on a long header reads the size with `readUint` and refuses it below 56 or
beyond the input. -/
theorem kind_new_long (x : UInt8) (rest : List UInt8) {k : Kind} {slen : Nat} (form : LongForm x k slen)
    (enough : slen ≤ rest.length) (canon : ¬(2 ≤ slen ∧ rest.headD 0 = 0)) {size : Nat}
    (read : ofBytesBE (rest.take slen) = size) :
    Stream.kind.run (Stream.new (x :: rest)) =
      if size < 56 then .error .canonSize ⟨rest.drop slen, some k, size, 0, some .canonSize, []⟩
      else if (rest.drop slen).length < size then
        .error .valueTooLarge ⟨rest.drop slen, some k, size, 0, some .valueTooLarge, []⟩
      else .ok (k, size) ⟨rest.drop slen, some k, size, 0, none, []⟩ := by
  have sizeOk := readUint_top none 0 0 none _ rest form.one_le enough canon
  rcases form with ⟨lo, hi, rfl, rfl⟩ | ⟨lo, rfl, rfl⟩
  · simp [Stream.kind, Stream.new, Stream.readKind, run_attempt, readByte_cons, above_longString lo, hi,
      sizeOk, read]
    by_cases small : size < 56 <;> by_cases beyond : rest.length - (x - 0xB7).toNat < size <;>
      simp only [small, beyond, if_true, if_false] <;> rfl
  · simp [Stream.kind, Stream.new, Stream.readKind, run_attempt, readByte_cons, above_longList lo,
      sizeOk, read]
    by_cases small : size < 56 <;> by_cases beyond : rest.length - (x - 0xF7).toNat < size <;>
      simp only [small, beyond, if_true, if_false] <;> rfl

theorem kind_new_long_fails (x : UInt8) (rest : List UInt8) {k : Kind} {slen : Nat} (form : LongForm x k slen)
    (bad : rest.length < slen ∨ (2 ≤ slen ∧ rest.headD 0 = 0)) (v : Kind × Nat) (s : Stream) :
    Stream.kind.run (Stream.new (x :: rest)) ≠ .ok v s := by
  obtain ⟨e, s', failed⟩ := readUint_fails none 0 0 none _ rest form.one_le bad
  rcases form with ⟨lo, hi, rfl, rfl⟩ | ⟨lo, rfl, rfl⟩
  · simp [Stream.kind, Stream.new, Stream.readKind, run_attempt, readByte_cons, above_longString lo, hi,
      failed, run_throw']
  · simp [Stream.kind, Stream.new, Stream.readKind, run_attempt, readByte_cons, above_longList lo,
      failed, run_throw']

theorem kind_new_byte (x : UInt8) (rest : List UInt8) (hx : x < 0x80) :
    Stream.kind.run (Stream.new (x :: rest)) = .ok (.byte, 0) ⟨rest, some .byte, 0, x, none, []⟩ := by
  simp only [Stream.kind, Stream.new, Stream.readKind, EStateM.run_bind, EStateM.run_get, EStateM.run_set,
    EStateM.run_modify, EStateM.run_pure, run_attempt, readByte_cons, Option.isNone_none, hx, if_true,
    gt_iff_lt, Nat.not_lt_zero, if_false]
  rfl

/-- `Bytes` runs `Kind` and then, for a string, reads the content. -/
theorem bytes_run (s0 : Stream) : Stream.bytes.run s0 = match Stream.kind.run s0 with
    | .ok (.byte, _) s => .ok [s.byteval] { s with kindAhead := none }
    | .ok (.string, size) s => match (Stream.readFull size).run s with
      | .ok b s' => if size = 1 ∧ b.headD 0 < 128 then .error .canonSize s' else .ok b s'
      | .error e s' => .error e s'
    | .ok (.list, _) s => .error .expectedString s
    | .error e s => .error e s := by
  unfold Stream.bytes
  simp only [EStateM.run_bind]
  rcases Stream.kind.run s0 with ⟨⟨k, n⟩, s⟩ | ⟨e, s⟩
  · cases k
    · rfl
    · simp only [EStateM.run_bind]
      rcases (Stream.readFull n).run s with ⟨b, s'⟩ | ⟨e, s'⟩
      · by_cases canon : n = 1 ∧ b.headD 0 < 128 <;> simp only [canon, ↓reduceIte] <;> rfl
      · rfl
    · rfl
  · rfl

/-- What a `Stream` over `b` reports for a first value of kind `k`, content `c` and
rest `r`: `Kind` gives the kind and the size, which is 0 for a single byte, and leaves
the header read; for a byte or a string `Bytes` gives the content and leaves the rest. -/
def StreamReads (b : List UInt8) (k : Kind) (c r : List UInt8) : Prop :=
  (∃ s, Stream.kind.run (Stream.new b) = .ok (k, if k = .byte then 0 else c.length) s ∧
      s.input = (if k = .byte then [] else c) ++ r) ∧
    (k ≠ .list → ∃ s, Stream.bytes.run (Stream.new b) = .ok c s ∧ s.input = r)

theorem split_byte {x : UInt8} {rest : List UInt8} (hx : x < 0x80) :
    split (x :: rest) = .ok (.byte, [x], rest) := by
  simp [split, readKind, hx]

theorem streamReads_byte {x : UInt8} {rest : List UInt8} (hx : x < 0x80) (k : Kind) (c r : List UInt8) :
    StreamReads (x :: rest) k c r ↔ (Kind.byte, [x], rest) = (k, c, r) := by
  simp only [StreamReads, bytes_run, kind_new_byte x rest hx]
  constructor
  · rintro ⟨⟨s, kindOk, after⟩, bytesOk⟩
    simp only [EStateM.Result.ok.injEq, Prod.mk.injEq] at kindOk
    obtain ⟨⟨rfl, -⟩, rfl⟩ := kindOk
    obtain ⟨s', bytesEq, -⟩ := bytesOk (by decide)
    simp only [EStateM.Result.ok.injEq] at bytesEq
    obtain ⟨rfl, -⟩ := bytesEq
    simp only [if_true, List.nil_append] at after ⊢
    rw [after]
  · intro same
    simp only [Prod.mk.injEq] at same
    obtain ⟨rfl, rfl, rfl⟩ := same
    exact ⟨⟨_, rfl, rfl⟩, fun _ => ⟨_, rfl, rfl⟩⟩

/-- The header grammar of RLP that both parsers read: the first byte is a single byte,
or gives a short string, a long string, a short list or a long list. A one-byte string
holds a byte of at least 0x80, a long size has no leading zero byte and is at least 56,
and the content fits in the input. `Header b k ts cs`: `b` starts with a value of kind
`k` whose header is `ts` bytes and whose content is `cs` bytes. -/
inductive Header : List UInt8 → Kind → Nat → Nat → Prop
  | byte {x : UInt8} {rest : List UInt8} : x < 0x80 → Header (x :: rest) .byte 0 1
  | short {x : UInt8} {rest : List UInt8} : 0x80 ≤ x → x < 0xB8 → (x - 0x80).toNat ≤ rest.length →
      ¬((x - 0x80).toNat = 1 ∧ rest.headD 0 < 0x80) → Header (x :: rest) .string 1 (x - 0x80).toNat
  | shortList {x : UInt8} {rest : List UInt8} : 0xC0 ≤ x → x < 0xF8 → (x - 0xC0).toNat ≤ rest.length →
      Header (x :: rest) .list 1 (x - 0xC0).toNat
  | long {x : UInt8} {rest : List UInt8} {k : Kind} {slen : Nat} : LongForm x k slen →
      slen ≤ rest.length → rest.headD 0 ≠ 0 → 56 ≤ ofBytesBE (rest.take slen) →
      ofBytesBE (rest.take slen) ≤ rest.length - slen → Header (x :: rest) k (slen + 1) (ofBytesBE (rest.take slen))

theorem readSize_ok {rest : List UInt8} {slen : Nat} (enough : slen ≤ rest.length) (lead : rest.headD 0 ≠ 0)
    (large : 56 ≤ ofBytesBE (rest.take slen)) : readSize rest slen = .ok (ofBytesBE (rest.take slen)) := by
  rw [readSize, if_neg (Nat.not_lt.mpr enough), if_neg (fun bad => bad.elim (by omega) lead)]
  rfl

theorem readSize_eq_ok {rest : List UInt8} {slen size : Nat} (read : readSize rest slen = .ok size) :
    slen ≤ rest.length ∧ rest.headD 0 ≠ 0 ∧ 56 ≤ ofBytesBE (rest.take slen) ∧
      size = ofBytesBE (rest.take slen) := by
  rw [readSize] at read
  split at read
  · cases read
  · rename_i enough
    dsimp only at read
    split at read
    · cases read
    · rename_i canon
      cases read
      exact ⟨by omega, fun zero => canon (.inr zero), by omega, rfl⟩

theorem readKind_of_header {b : List UInt8} {k : Kind} {ts cs : Nat} (header : Header b k ts cs) :
    readKind b = .ok (k, ts, cs) := by
  cases header with
  | byte hx => simp [readKind, hx]
  | @short x rest lo hi fits canon =>
    have canon' : ¬((x - 0x80).toNat = 1 ∧ 0 < rest.length ∧ rest.head?.getD 0 < 0x80) :=
      fun ⟨one, _, small⟩ => canon ⟨one, by rwa [List.headD_eq_head?_getD]⟩
    simp [readKind, UInt8.not_lt.mpr lo, hi, canon', Nat.not_lt.mpr fits]
  | @shortList x rest lo hi fits =>
    simp [readKind, above_shortList lo, hi, Nat.not_lt.mpr fits]
  | @long x rest k slen form enough lead large fits =>
    rcases form with ⟨lo, hi, rfl, rfl⟩ | ⟨lo, rfl, rfl⟩
    · simp [readKind, above_longString lo, hi, readSize_ok enough lead large, Nat.not_lt.mpr fits]
    · simp [readKind, above_longList lo, readSize_ok enough lead large, Nat.not_lt.mpr fits]

theorem firstByte_cases (x : UInt8) :
    x < 0x80 ∨ (0x80 ≤ x ∧ x < 0xB8) ∨ (0xB8 ≤ x ∧ x < 0xC0) ∨ (0xC0 ≤ x ∧ x < 0xF8) ∨ 0xF8 ≤ x := by
  simp only [UInt8.lt_iff_toNat_lt, UInt8.le_iff_toNat_le]
  simp only [UInt8.reduceToNat]
  omega

theorem header_of_readKind {b : List UInt8} {k : Kind} {ts cs : Nat} (ok : readKind b = .ok (k, ts, cs)) :
    Header b k ts cs := by
  match b with
  | [] => cases ok
  | x :: rest =>
    rcases firstByte_cases x with hx | ⟨lo, hi⟩ | ⟨lo, hi⟩ | ⟨lo, hi⟩ | lo
    · simp [readKind, hx] at ok
      obtain ⟨rfl, rfl, rfl⟩ := ok
      exact .byte hx
    · simp [readKind, UInt8.not_lt.mpr lo, hi] at ok
      obtain ⟨v, first, second⟩ := bind_eq_ok ok
      split at first
      · cases first
      · rename_i canon
        cases first
        split at second
        · cases second
        · rename_i fits
          simp only at fits
          cases second
          exact .short lo hi (by omega)
            (fun ⟨one, small⟩ => canon ⟨one, by omega, by rwa [← List.headD_eq_head?_getD]⟩)
    · simp [readKind, above_longString lo, hi] at ok
      obtain ⟨size, read, second⟩ := bind_eq_ok ok
      obtain ⟨enough, lead, large, rfl⟩ := readSize_eq_ok read
      split at second
      · cases second
      · rename_i fits
        cases second
        exact .long (.inl ⟨lo, hi, rfl, rfl⟩) enough lead large (by omega)
    · simp [readKind, above_shortList lo, hi] at ok
      split at ok
      · cases ok
      · rename_i fits
        cases ok
        exact .shortList lo hi (by omega)
    · simp [readKind, above_longList lo] at ok
      obtain ⟨size, read, second⟩ := bind_eq_ok ok
      obtain ⟨enough, lead, large, rfl⟩ := readSize_eq_ok read
      split at second
      · cases second
      · rename_i fits
        cases second
        exact .long (.inr ⟨lo, rfl, rfl⟩) enough lead large (by omega)

/-- A `Stream` reads every header of the grammar the way `Split` cuts it. -/
theorem streamReads_of_header {b : List UInt8} {k : Kind} {ts cs : Nat} (header : Header b k ts cs) :
    StreamReads b k ((b.drop ts).take cs) (b.drop (ts + cs)) := by
  cases header with
  | @byte x rest hx =>
    have kindOk := kind_new_byte x rest hx
    refine ⟨⟨_, kindOk, rfl⟩, fun _ => ⟨⟨rest, none, 0, x, none, []⟩, ?_, rfl⟩⟩
    rw [bytes_run, kindOk]
    rfl
  | @short x rest lo hi fits canon =>
    have kindOk := kind_new_short x rest (.inl ⟨lo, hi, rfl, rfl⟩)
    rw [if_neg (Nat.not_lt.mpr fits)] at kindOk
    refine ⟨⟨⟨rest, some .string, (x - 0x80).toNat, 0, none, []⟩, ?_, ?_⟩, fun _ =>
      ⟨⟨rest.drop (x - 0x80).toNat, none, (x - 0x80).toNat, 0, none, []⟩, ?_, ?_⟩⟩
    · rw [kindOk]
      simp [Nat.min_eq_left fits]
    · rw [drop_one_add, if_neg (by decide), List.drop_one, List.tail_cons, List.take_append_drop]
    · have canon' : ¬((x - 0x80).toNat = 1 ∧ (rest.take (x - 0x80).toNat).headD 0 < 128) :=
        fun ⟨one, small⟩ => canon ⟨one, by rwa [headD_take (by omega)] at small⟩
      rw [bytes_run, kindOk]
      simp only [readFull_top _ _ _ _ _ _ fits]
      rw [if_neg canon']
      rfl
    · rw [drop_one_add]
  | @shortList x rest lo hi fits =>
    have kindOk := kind_new_short x rest (.inr ⟨lo, hi, rfl, rfl⟩)
    rw [if_neg (Nat.not_lt.mpr fits)] at kindOk
    refine ⟨⟨⟨rest, some .list, (x - 0xC0).toNat, 0, none, []⟩, ?_, ?_⟩, fun notList => absurd rfl notList⟩
    · rw [kindOk]
      simp [Nat.min_eq_left fits]
    · rw [drop_one_add, if_neg (by decide), List.drop_one, List.tail_cons, List.take_append_drop]
  | @long x rest k slen form enough lead large fits =>
    have notByte : k ≠ .byte := by
      rcases form with ⟨-, -, rfl, -⟩ | ⟨-, rfl, -⟩ <;> decide
    have kindOk := kind_new_long x rest form enough (fun ⟨_, zero⟩ => lead zero) rfl
    rw [if_neg (by omega), if_neg (by simp; omega)] at kindOk
    have fits' : ofBytesBE (rest.take slen) ≤ (rest.drop slen).length := by
      rw [List.length_drop]
      exact fits
    refine ⟨⟨⟨rest.drop slen, some k, ofBytesBE (rest.take slen), 0, none, []⟩, ?_, ?_⟩, fun notList => ?_⟩
    · rw [kindOk]
      simp [notByte, Nat.min_eq_left fits]
    · rw [if_neg notByte, drop_cons_add, List.drop_succ_cons, List.take_append_drop]
    · have string : k = .string := by cases k <;> simp_all
      subst string
      refine ⟨⟨(rest.drop slen).drop (ofBytesBE (rest.take slen)), none, ofBytesBE (rest.take slen), 0, none, []⟩, ?_, ?_⟩
      · rw [bytes_run, kindOk]
        simp only [readFull_top _ _ _ _ _ _ fits']
        rw [if_neg (by omega)]
        rfl
      · rw [drop_cons_add]

/-- What a `Stream` reports fixes the value: its kind, its content and the rest. -/
theorem streamReads_unique {b : List UInt8} {k k' : Kind} {c c' r r' : List UInt8}
    (first : StreamReads b k c r) (second : StreamReads b k' c' r') : (k, c, r) = (k', c', r') := by
  obtain ⟨⟨s, kindOk, after⟩, bytesOk⟩ := first
  obtain ⟨⟨s', kindOk', after'⟩, bytesOk'⟩ := second
  rw [kindOk] at kindOk'
  simp only [EStateM.Result.ok.injEq, Prod.mk.injEq] at kindOk'
  obtain ⟨⟨rfl, sizes⟩, rfl⟩ := kindOk'
  by_cases byte : k = .byte
  · -- a single byte has size 0: `Bytes` gives the content
    obtain ⟨t, bytes, rest⟩ := bytesOk (by simp [byte])
    obtain ⟨t', bytes', rest'⟩ := bytesOk' (by simp [byte])
    rw [bytes] at bytes'
    simp only [EStateM.Result.ok.injEq] at bytes'
    obtain ⟨rfl, rfl⟩ := bytes'
    rw [← rest, ← rest']
  · simp only [if_neg byte] at sizes after after'
    obtain ⟨rfl, rfl⟩ := List.append_inj (after.symm.trans after') sizes
    rfl

/-- A size of at least 56 in one byte has a nonzero first byte; longer sizes are
refused with one. -/
theorem lead_of_large {rest : List UInt8} {slen : Nat} (one : 1 ≤ slen)
    (canon : ¬(2 ≤ slen ∧ rest.headD 0 = 0)) (large : 56 ≤ ofBytesBE (rest.take slen)) :
    rest.headD 0 ≠ 0 := by
  intro zero
  match slen, rest with
  | 1, [] => simp [ofBytesBE] at large
  | 1, y :: rest =>
    simp only [List.headD_cons] at zero
    simp [ofBytesBE, zero] at large
  | n + 2, rest => exact canon ⟨by omega, zero⟩

theorem header_of_kind_long {x : UInt8} {rest : List UInt8} {k : Kind} {slen : Nat}
    (form : LongForm x k slen) {v : Kind × Nat} {s : Stream}
    (kindOk : Stream.kind.run (Stream.new (x :: rest)) = .ok v s) :
    Header (x :: rest) k (slen + 1) (ofBytesBE (rest.take slen)) := by
  by_cases bad : rest.length < slen ∨ (2 ≤ slen ∧ rest.headD 0 = 0)
  · exact absurd kindOk (kind_new_long_fails x rest form bad _ _)
  · obtain ⟨enough, canon⟩ := not_or.mp bad
    rw [kind_new_long x rest form (Nat.not_lt.mp enough) canon rfl] at kindOk
    split at kindOk
    · cases kindOk
    · rename_i large
      split at kindOk
      · cases kindOk
      · rename_i fits
        rw [List.length_drop] at fits
        exact .long form (Nat.not_lt.mp enough) (lead_of_large form.one_le canon (by omega)) (by omega)
          (by omega)

/-- A `Stream` that reads a first value, and for a string also its content, has read a
header of the grammar. -/
theorem header_of_kind {b : List UInt8} {k : Kind} {n : Nat} {s : Stream}
    (kindOk : Stream.kind.run (Stream.new b) = .ok (k, n) s)
    (bytesOk : k ≠ .list → ∃ c s', Stream.bytes.run (Stream.new b) = .ok c s') :
    ∃ k' ts cs, Header b k' ts cs := by
  match b with
  | [] => exact absurd kindOk (kind_new_nil _ _)
  | x :: rest =>
    rcases firstByte_cases x with hx | ⟨lo, hi⟩ | ⟨lo, hi⟩ | ⟨lo, hi⟩ | lo
    · exact ⟨_, _, _, .byte hx⟩
    · have kindShort := kind_new_short x rest (.inl ⟨lo, hi, rfl, rfl⟩)
      by_cases fits : (x - 0x80).toNat ≤ rest.length
      · rw [if_neg (Nat.not_lt.mpr fits)] at kindShort
        rw [kindShort] at kindOk
        simp only [EStateM.Result.ok.injEq, Prod.mk.injEq] at kindOk
        obtain ⟨⟨rfl, -⟩, -⟩ := kindOk
        -- the one-byte string check lives in `Bytes`
        obtain ⟨c, s', bytes⟩ := bytesOk (by decide)
        rw [bytes_run, kindShort] at bytes
        simp only [readFull_top _ _ _ _ _ _ fits] at bytes
        split at bytes
        · cases bytes
        · rename_i canon
          exact ⟨_, _, _, .short lo hi fits fun ⟨one, small⟩ => canon ⟨one, by rwa [headD_take (by omega)]⟩⟩
      · rw [if_pos (Nat.lt_of_not_le fits)] at kindShort
        rw [kindShort] at kindOk
        cases kindOk
    · exact ⟨_, _, _, header_of_kind_long (.inl ⟨lo, hi, rfl, rfl⟩) kindOk⟩
    · have kindShort := kind_new_short x rest (.inr ⟨lo, hi, rfl, rfl⟩)
      by_cases fits : (x - 0xC0).toNat ≤ rest.length
      · exact ⟨_, _, _, .shortList lo hi fits⟩
      · rw [if_pos (Nat.lt_of_not_le fits)] at kindShort
        rw [kindShort] at kindOk
        cases kindOk
    · exact ⟨_, _, _, header_of_kind_long (.inr ⟨lo, rfl, rfl⟩) kindOk⟩

theorem header_of_streamReads {b : List UInt8} {k : Kind} {c r : List UInt8} (reads : StreamReads b k c r) :
    ∃ k' ts cs, Header b k' ts cs := by
  obtain ⟨⟨s, kindOk, -⟩, bytesOk⟩ := reads
  refine header_of_kind kindOk fun notList => ?_
  obtain ⟨s', bytes, -⟩ := bytesOk notList
  exact ⟨c, s', bytes⟩

theorem split_eq_ok_iff (b : List UInt8) (k : Kind) (c r : List UInt8) :
    split b = .ok (k, c, r) ↔ StreamReads b k c r := by
  constructor
  · intro ok
    obtain ⟨⟨k', ts, cs⟩, kindOk, cut⟩ := bind_eq_ok ok
    cases cut
    exact streamReads_of_header (header_of_readKind kindOk)
  · intro reads
    obtain ⟨k', ts, cs, header⟩ := header_of_streamReads reads
    have same := streamReads_unique reads (streamReads_of_header header)
    rw [split, readKind_of_header header, same]
    rfl

/-- `Bytes` succeeds only after `Kind` reports a byte or a string. -/
theorem kind_of_bytes {b c : List UInt8} {s : Stream} (bytesOk : Stream.bytes.run (Stream.new b) = .ok c s) :
    ∃ k n s0, Stream.kind.run (Stream.new b) = .ok (k, n) s0 ∧ k ≠ .list := by
  rw [bytes_run] at bytesOk
  split at bytesOk
  next n s0 kindOk => exact ⟨_, _, _, kindOk, by decide⟩
  next n s0 kindOk => exact ⟨_, _, _, kindOk, by decide⟩
  next => cases bytesOk
  next => cases bytesOk

/-- `SplitString`: the content of a first value that is not a list, and the rest. -/
def splitString (b : List UInt8) : Except RlpError (List UInt8 × List UInt8) := do
  let (k, content, rest) ← split b
  if k = .list then throw .expectedString
  pure (content, rest)

/-- `SplitList`: the content of a first value that is a list, and the rest. -/
def splitList (b : List UInt8) : Except RlpError (List UInt8 × List UInt8) := do
  let (k, content, rest) ← split b
  if k ≠ .list then throw .expectedList
  pure (content, rest)

/-- `SplitString` cuts what `Bytes` reads. -/
theorem splitString_eq_ok_iff (b c r : List UInt8) :
    splitString b = .ok (c, r) ↔ ∃ s, Stream.bytes.run (Stream.new b) = .ok c s ∧ s.input = r := by
  constructor
  · intro ok
    obtain ⟨⟨k, c', r'⟩, splitOk, rest⟩ := bind_eq_ok ok
    dsimp only at rest
    split at rest
    · cases rest
    · rename_i notList
      cases rest
      exact ((split_eq_ok_iff b k c r).mp splitOk).2 notList
  · rintro ⟨s, bytesOk, rfl⟩
    obtain ⟨k, n, s0, kindOk, notList⟩ := kind_of_bytes bytesOk
    obtain ⟨k', ts, cs, header⟩ := header_of_kind kindOk fun _ => ⟨_, _, bytesOk⟩
    obtain ⟨⟨s1, kindOk', -⟩, bytesOk'⟩ := streamReads_of_header header
    rw [kindOk] at kindOk'
    simp only [EStateM.Result.ok.injEq, Prod.mk.injEq] at kindOk'
    obtain ⟨⟨rfl, -⟩, -⟩ := kindOk'
    obtain ⟨s2, bytes, rest⟩ := bytesOk' notList
    rw [bytesOk] at bytes
    simp only [EStateM.Result.ok.injEq] at bytes
    obtain ⟨rfl, rfl⟩ := bytes
    simp [splitString, split, readKind_of_header header, notList, rest]

/-- `SplitList` cuts a list where `Kind` reports it. -/
theorem splitList_eq_ok_iff (b c r : List UInt8) :
    splitList b = .ok (c, r) ↔
      ∃ s, Stream.kind.run (Stream.new b) = .ok (.list, c.length) s ∧ s.input = c ++ r := by
  constructor
  · intro ok
    obtain ⟨⟨k, c', r'⟩, splitOk, rest⟩ := bind_eq_ok ok
    dsimp only at rest
    split at rest
    · cases rest
    · rename_i list
      cases rest
      obtain ⟨⟨s, kindOk, after⟩, -⟩ := (split_eq_ok_iff b k c r).mp splitOk
      rw [not_not.mp list] at kindOk after
      exact ⟨s, kindOk, after⟩
  · rintro ⟨s, kindOk, after⟩
    have reads : StreamReads b .list c r := ⟨⟨s, kindOk, after⟩, fun notList => absurd rfl notList⟩
    simp [splitList, (split_eq_ok_iff b .list c r).mpr reads]

/-- For a single byte, `Kind` reports size 0 where `Split` gives one byte of content. -/
theorem split_single_byte :
    split [5] = .ok (.byte, [5], []) ∧ ∀ s, Stream.kind.run (Stream.new [5]) ≠ .ok (.byte, [5].length) s := by
  refine ⟨split_byte (by decide), fun s kindOk => ?_⟩
  rw [kind_new_byte 5 [] (by decide)] at kindOk
  simp at kindOk

/-- A header and its content take at least a byte and at most the input. -/
theorem Header.advances {b : List UInt8} {k : Kind} {ts cs : Nat} (header : Header b k ts cs) :
    0 < ts + cs ∧ ts + cs ≤ b.length := by
  cases header with
  | byte => simp
  | short _ _ fits _ => simp only [List.length_cons]; omega
  | shortList _ _ fits => simp only [List.length_cons]; omega
  | long _ enough _ _ fits => simp only [List.length_cons]; omega

theorem readKind_advances {b : List UInt8} {k : Kind} {ts cs : Nat} (ok : readKind b = .ok (k, ts, cs)) :
    (b.drop (ts + cs)).length < b.length := by
  have advances := (header_of_readKind ok).advances
  rw [List.length_drop]
  omega

/-- `CountValues`: the number of values one after another in `b`, reading one header
after another and skipping its content, to the end of `b`. -/
def countValues (b : List UInt8) : Except RlpError Nat :=
  if b = [] then pure 0
  else
    match ok : readKind b with
    | .error err => throw err
    | .ok (_, tagsize, size) => do
      let n ← countValues (b.drop (tagsize + size))
      pure (n + 1)
termination_by b.length
decreasing_by exact readKind_advances ok

theorem countValues_nil : countValues [] = .ok 0 := by
  rw [countValues, if_pos rfl]
  rfl

theorem countValues_of_readKind {b : List UInt8} {k : Kind} {ts cs : Nat} (ok : readKind b = .ok (k, ts, cs)) :
    countValues b = (countValues (b.drop (ts + cs))).map (· + 1) := by
  have nonempty : b ≠ [] := by
    rintro rfl
    cases ok
  rw [countValues, if_neg nonempty]
  split
  · next err failed => rw [ok] at failed; cases failed
  · next k' ts' cs' found =>
    rw [ok] at found
    cases found
    cases countValues (b.drop (ts + cs)) <;> rfl

end TomoChain.Rlp
