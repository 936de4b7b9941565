import Mathlib
import TomoChain.Rlp.Encode
import TomoChain.Lib.Fuel

set_option autoImplicit false

/-! The decoder of `rlp/decode.go`: the `Stream` with its cached kind, the stack of
open lists and the reads that advance both, and the decoders `makeDecoder` builds
for the types of `Encode`. A stream operation mutates the stream also when it fails,
as the Go methods do, so the decoders run in `EStateM`, whose errors keep the state.

The input is a `bytes.Reader` of the whole input with the input limit set to its
length, so the `remaining` count of the stream is always the length of the unread
input, which is what the model keeps. The slice loop of `decodeSliceElems` stops only
at the end of its list; the decoders take a fuel, one unit per call, and report
`outOfFuel` when it is used up. -/
namespace TomoChain.Rlp

open Lib

/-- `Kind`. -/
inductive Kind where
  | byte
  | string
  | list
  deriving Repr, DecidableEq

/-- The errors of the stream and of the decoders. `decodeError` is `*decodeError`
with its message and the context `addErrorContext` adds, innermost first; its Go
type is not kept. -/
inductive RlpError where
  | eol
  | expectedString
  | expectedList
  | canonInt
  | canonSize
  | elemTooLarge
  | valueTooLarge
  | moreThanOneValue
  | notInList
  | notAtEOL
  | uintOverflow
  | unexpectedEOF
  | eof
  | invalidBool (num : Nat)
  | decodeError (msg : String) (ctx : List String)
  | outOfFuel
  deriving Repr, DecidableEq

/-- `listpos`. -/
structure ListPos where
  pos : Nat
  size : Nat
  deriving Repr, DecidableEq

/-- `Stream`. Its field `kind`, the kind of the value ahead, is `kindAhead` here, as
`kind` names the method `Kind`; `none` is the `-1` that re-arms `Kind`. The innermost
list is the head of `stack`. -/
structure Stream where
  input : List UInt8
  kindAhead : Option Kind
  size : Nat
  byteval : UInt8
  kinderr : Option RlpError
  stack : List ListPos
  deriving Repr

/-- `NewStream(bytes.NewReader(b), uint64(len(b)))`. -/
def Stream.new (b : List UInt8) : Stream := ⟨b, none, 0, 0, none, []⟩

abbrev Dec := EStateM RlpError Stream

/-- `wrapStreamError`. -/
def wrapStreamError : RlpError → RlpError
  | .canonInt => .decodeError "non-canonical integer (leading zero bytes)" []
  | .canonSize => .decodeError "non-canonical size information" []
  | .expectedList => .decodeError "expected input list" []
  | .expectedString => .decodeError "expected input string or byte" []
  | .uintOverflow => .decodeError "input string too long" []
  | .notAtEOL => .decodeError "input list has too many elements" []
  | err => err

/-- `addErrorContext`. -/
def addErrorContext (err : RlpError) (ctx : String) : RlpError :=
  match err with
  | .decodeError msg ctxs => .decodeError msg (ctxs ++ [ctx])
  | err => err

/-- Runs `x` and wraps its error, as `return wrapStreamError(err, typ)` does. -/
def wrapped {α : Type} (x : Dec α) : Dec α := tryCatch x fun err => throw (wrapStreamError err)

namespace Stream

def rearm : Dec Unit := modify fun s => { s with kindAhead := none }

/-- `willRead`: re-arms `Kind`, checks the innermost list and the input limit. -/
def willRead (n : Nat) : Dec Unit := do
  rearm
  let s ← get
  match s.stack with
  | tos :: rest =>
    if n > tos.size - tos.pos then throw .elemTooLarge
    set { s with stack := { tos with pos := tos.pos + n } :: rest }
  | [] => pure ()
  if n > (← get).input.length then throw .valueTooLarge

def readByte : Dec UInt8 := do
  willRead 1
  let s ← get
  match s.input with
  | b :: rest =>
    set { s with input := rest }
    pure b
  | [] => throw .unexpectedEOF

def readFull (n : Nat) : Dec (List UInt8) := do
  willRead n
  let s ← get
  if s.input.length < n then throw .unexpectedEOF
  set { s with input := s.input.drop n }
  pure (s.input.take n)

/-- `readUint`: 0 to 8 bytes, big-endian, without a leading zero byte. -/
def readUint (size : Nat) : Dec Nat :=
  match size with
  | 0 => do
    rearm
    pure 0
  | 1 => do
    let b ← readByte
    pure b.toNat
  | size => do
    let buf ← readFull size
    if buf.headD 0 = 0 then throw .canonSize
    pure (ofBytesBE buf)

/-- `readKind`, with its error as a result the way Go returns it. -/
def readKind : Dec (Kind × Nat × Option RlpError) := do
  match ← attempt readByte with
  | .error err =>
    let s ← get
    -- at top level the end of the input is `io.EOF`
    let err := if s.stack.isEmpty then
        match err with
        | .unexpectedEOF | .valueTooLarge => .eof
        | err => err
      else err
    pure (.byte, 0, some err)
  | .ok b =>
    modify fun s => { s with byteval := 0 }
    if b < 0x80 then
      modify fun s => { s with byteval := b }
      pure (.byte, 0, none)
    else if b < 0xB8 then pure (.string, (b - 0x80).toNat, none)
    else if b < 0xC0 then
      match ← attempt (readUint (b - 0xB7).toNat) with
      | .error err => pure (.string, 0, some err)
      | .ok size => pure (.string, size, if size < 56 then some .canonSize else none)
    else if b < 0xF8 then pure (.list, (b - 0xC0).toNat, none)
    else
      match ← attempt (readUint (b - 0xF7).toNat) with
      | .error err => pure (.list, 0, some err)
      | .ok size => pure (.list, size, if size < 56 then some .canonSize else none)

/-- `Kind`: reads the next header unless one is cached, and checks the value
against the innermost list or, at top level, against the remaining input. -/
def kind : Dec (Kind × Nat) := do
  let s ← get
  if s.kindAhead.isNone then
    set { s with kinderr := none }
    if let tos :: _ := s.stack then
      if tos.pos = tos.size then throw .eol
    let (k, size, err) ← readKind
    let s ← get
    -- `tos` points into the stack, so it sees the position after the header
    let err := match err with
      | some err => some err
      | none =>
        match s.stack with
        | [] => if size > s.input.length then some .valueTooLarge else none
        | tos :: _ => if size > tos.size - tos.pos then some .elemTooLarge else none
    set { s with kindAhead := some k, size := size, kinderr := err }
  let s ← get
  match s.kinderr with
  | some err => throw err
  | none => pure (s.kindAhead.getD .byte, s.size)

def bytes : Dec (List UInt8) := do
  let (kind, size) ← Stream.kind
  match kind with
  | .byte =>
    rearm
    pure [(← get).byteval]
  | .string =>
    let b ← readFull size
    if size = 1 ∧ b.headD 0 < 128 then throw .canonSize
    pure b
  | .list => throw .expectedString

def uint (maxbits : Nat) : Dec Nat := do
  let (kind, size) ← Stream.kind
  match kind with
  | .byte =>
    let s ← get
    -- a zero byte is refused before `Kind` is re-armed
    if s.byteval = 0 then throw .canonInt
    rearm
    pure s.byteval.toNat
  | .string =>
    if size > maxbits / 8 then throw .uintOverflow
    let v ← tryCatch (readUint size) fun err => throw (if err = .canonSize then .canonInt else err)
    if size > 0 ∧ v < 128 then throw .canonSize
    pure v
  | .list => throw .expectedString

def bool : Dec Bool := do
  let num ← uint 8
  match num with
  | 0 => pure false
  | 1 => pure true
  | num => throw (.invalidBool num)

def list : Dec Nat := do
  let (kind, size) ← Stream.kind
  if kind ≠ .list then throw .expectedList
  modify fun s => { s with stack := ⟨0, size⟩ :: s.stack, kindAhead := none, size := 0 }
  pure size

def listEnd : Dec Unit := do
  let s ← get
  match s.stack with
  | [] => throw .notInList
  | tos :: rest =>
    if tos.pos ≠ tos.size then throw .notAtEOL
    let rest := match rest with
      | [] => []
      | outer :: more => { outer with pos := outer.pos + tos.size } :: more
    set { s with stack := rest, kindAhead := none, size := 0 }

end Stream

def decodeUint (bits : Nat) : Dec RValue := do
  let num ← wrapped (Stream.uint bits)
  pure (.uint num)

def decodeBool : Dec RValue := do
  let b ← wrapped Stream.bool
  pure (.bool b)

def decodeString : Dec RValue := do
  let b ← wrapped Stream.bytes
  pure (.string b)

def decodeBigInt : Dec RValue := do
  let b ← wrapped Stream.bytes
  -- reject leading zero bytes
  if b ≠ [] ∧ b.headD 0 = 0 then throw (wrapStreamError .canonInt)
  pure (.bigInt (ofBytesBE b))

/-- The value of a byte slice or array. -/
def byteList (b : List UInt8) : RValue := .list (b.map fun byte => .uint byte.toNat)

def decodeByteSlice : Dec RValue := do
  let b ← wrapped Stream.bytes
  pure (byteList b)

def decodeByteArray (vlen : Nat) : Dec RValue := do
  let (kind, size) ← Stream.kind
  match kind with
  | .byte =>
    if vlen = 0 then throw (.decodeError "input string too long" [])
    if vlen > 1 then throw (.decodeError "input string too short" [])
    -- `bv, _ := s.Uint()`: the error is dropped, and with it the re-arming
    let bv ← tryCatch (Stream.uint 64) fun _ => pure 0
    pure (.list [.uint bv])
  | .string =>
    if vlen < size then throw (.decodeError "input string too long" [])
    if vlen > size then throw (.decodeError "input string too short" [])
    let slice ← Stream.readFull vlen
    -- reject cases where single byte encoding should have been used
    if size = 1 ∧ slice.headD 0 < 128 then throw (wrapStreamError .canonSize)
    pure (byteList slice)
  | .list => throw (wrapStreamError .expectedString)

mutual

/-- The decoder `makeDecoder` builds for a type. -/
def decodeValue : Nat → RType → Dec RValue
  | 0, _ => throw .outOfFuel
  | _ + 1, .uint bits => decodeUint bits
  | _ + 1, .bool => decodeBool
  | _ + 1, .string => decodeString
  | _ + 1, .bigInt => decodeBigInt
  | fuel + 1, .slice elem =>
    if isByte elem then decodeByteSlice else decodeListSlice fuel elem
  | fuel + 1, .array len elem =>
    if isByte elem then decodeByteArray len else decodeListArray fuel len elem
  | fuel + 1, .struct fields => decodeStruct fuel fields
termination_by structural fuel _ => fuel

def decodeListSlice : Nat → RType → Dec RValue
  | 0, _ => throw .outOfFuel
  | fuel + 1, elem => do
    let size ← wrapped Stream.list
    if size = 0 then
      wrapped Stream.listEnd
      return .list []
    let elems ← decodeSliceElems fuel elem 0
    wrapped Stream.listEnd
    pure (.list elems)
termination_by structural fuel _ => fuel

/-- The loop of `decodeSliceElems` from element `i`: an `EOL` ends it. -/
def decodeSliceElems : Nat → RType → Nat → Dec (List RValue)
  | 0, _, _ => throw .outOfFuel
  | fuel + 1, elem, i => do
    match ← attempt (decodeValue fuel elem) with
    | .error .eol => pure []
    | .error err => throw (addErrorContext err ("[" ++ toString i ++ "]"))
    | .ok v =>
      let rest ← decodeSliceElems fuel elem (i + 1)
      pure (v :: rest)
termination_by structural fuel _ _ => fuel

def decodeListArray : Nat → Nat → RType → Dec RValue
  | 0, _, _ => throw .outOfFuel
  | fuel + 1, vlen, elem => do
    let _ ← wrapped Stream.list
    let elems ← decodeArrayElems fuel elem 0 vlen
    if elems.length < vlen then throw (.decodeError "input list has too few elements" [])
    wrapped Stream.listEnd
    pure (.list elems)
termination_by structural fuel _ _ => fuel

/-- The loop of `decodeListArray` over the `count` elements from `i`: an `EOL`
stops it short. -/
def decodeArrayElems : Nat → RType → Nat → Nat → Dec (List RValue)
  | 0, _, _, _ => throw .outOfFuel
  | _ + 1, _, _, 0 => pure []
  | fuel + 1, elem, i, count + 1 => do
    match ← attempt (decodeValue fuel elem) with
    | .error .eol => pure []
    | .error err => throw (addErrorContext err ("[" ++ toString i ++ "]"))
    | .ok v =>
      let rest ← decodeArrayElems fuel elem (i + 1) count
      pure (v :: rest)
termination_by structural fuel _ _ _ => fuel

def decodeStruct : Nat → List (String × RType) → Dec RValue
  | 0, _ => throw .outOfFuel
  | fuel + 1, fields => do
    let _ ← wrapped Stream.list
    let vs ← decodeFields fuel fields
    wrapped Stream.listEnd
    pure (.list vs)
termination_by structural fuel _ => fuel

/-- The field loop of `makeStructDecoder`. -/
def decodeFields : Nat → List (String × RType) → Dec (List RValue)
  | 0, _ => throw .outOfFuel
  | _ + 1, [] => pure []
  | fuel + 1, (name, field) :: fields => do
    match ← attempt (decodeValue fuel field) with
    | .error .eol => throw (.decodeError "too few elements" [])
    | .error err => throw (addErrorContext err ("." ++ name))
    | .ok v =>
      let rest ← decodeFields fuel fields
      pure (v :: rest)
termination_by structural fuel _ => fuel

end

/-- `DecodeBytes`: one value and no trailing data. -/
def decodeBytes (fuel : Nat) (t : RType) (b : List UInt8) : Except RlpError RValue :=
  match (decodeValue fuel t).run (Stream.new b) with
  | .ok v s => if s.input.length > 0 then .error .moreThanOneValue else .ok v
  | .error err _ => .error err


/-! ## Fuel

A decoder with one more unit of fuel gives what it gave wherever it did not run out:
every decoder passes the fuel only to its recursive calls, and each loop hands an
`outOfFuel` of its element on unchanged. -/

section Fuel

/-- The outcome handler of the element loops stops on `outOfFuel`. -/
theorem addErrorContext_outOfFuel (ctx : String) : addErrorContext .outOfFuel ctx = .outOfFuel := rfl

theorem decoders_extend (fuel : Nat) :
    (∀ t, Extends .outOfFuel (decodeValue fuel t) (decodeValue (fuel + 1) t)) ∧
    (∀ elem, Extends .outOfFuel (decodeListSlice fuel elem) (decodeListSlice (fuel + 1) elem)) ∧
    (∀ elem i, Extends .outOfFuel (decodeSliceElems fuel elem i) (decodeSliceElems (fuel + 1) elem i)) ∧
    (∀ vlen elem, Extends .outOfFuel (decodeListArray fuel vlen elem) (decodeListArray (fuel + 1) vlen elem)) ∧
    (∀ elem i count,
      Extends .outOfFuel (decodeArrayElems fuel elem i count) (decodeArrayElems (fuel + 1) elem i count)) ∧
    (∀ fields, Extends .outOfFuel (decodeStruct fuel fields) (decodeStruct (fuel + 1) fields)) ∧
    (∀ fields, Extends .outOfFuel (decodeFields fuel fields) (decodeFields (fuel + 1) fields)) := by
  induction fuel with
  | zero =>
    refine ⟨?_, ?_, ?_, ?_, ?_, ?_, ?_⟩ <;> intros <;> exact extends_throw _
  | succ fuel ih =>
    obtain ⟨value, listSlice, sliceElems, listArray, arrayElems, struct, fields⟩ := ih
    refine ⟨?_, ?_, ?_, ?_, ?_, ?_, ?_⟩
    · intro t
      cases t with
      | slice elem =>
        simp only [decodeValue]
        split
        · exact Extends.refl _
        · exact listSlice elem
      | array len elem =>
        simp only [decodeValue]
        split
        · exact Extends.refl _
        · exact listArray len elem
      | struct fs =>
        simp only [decodeValue]
        exact struct fs
      | _ =>
        simp only [decodeValue]
        exact Extends.refl _
    · intro elem
      simp only [decodeListSlice]
      refine Extends.bind (Extends.refl _) fun size => ?_
      split
      · exact Extends.refl _
      · exact Extends.bind (sliceElems elem 0) fun _ => Extends.refl _
    · intro elem i
      rw [decodeSliceElems.eq_2 elem i fuel, decodeSliceElems.eq_2 elem i (fuel + 1)]
      refine Extends.attempt_bind (value elem) (fun r => ?_) fun s => ⟨s, rfl⟩
      split
      · exact Extends.refl _
      · exact Extends.refl _
      · exact Extends.bind (sliceElems elem (i + 1)) fun _ => Extends.refl _
    · intro vlen elem
      simp only [decodeListArray]
      exact Extends.bind (Extends.refl _) fun _ => Extends.bind (arrayElems elem 0 vlen) fun _ => Extends.refl _
    · intro elem i count
      cases count with
      | zero =>
        simp only [decodeArrayElems]
        exact Extends.refl _
      | succ count =>
        rw [decodeArrayElems.eq_3 elem i fuel count, decodeArrayElems.eq_3 elem i (fuel + 1) count]
        refine Extends.attempt_bind (value elem) (fun r => ?_) fun s => ⟨s, rfl⟩
        split
        · exact Extends.refl _
        · exact Extends.refl _
        · exact Extends.bind (arrayElems elem (i + 1) count) fun _ => Extends.refl _
    · intro fs
      simp only [decodeStruct]
      exact Extends.bind (Extends.refl _) fun _ => Extends.bind (fields fs) fun _ => Extends.refl _
    · intro fs
      cases fs with
      | nil =>
        simp only [decodeFields]
        exact Extends.refl _
      | cons field rest =>
        obtain ⟨name, field⟩ := field
        rw [decodeFields.eq_3 fuel name field rest, decodeFields.eq_3 (fuel + 1) name field rest]
        refine Extends.attempt_bind (value field) (fun r => ?_) fun s => ⟨s, rfl⟩
        split
        · exact Extends.refl _
        · exact Extends.refl _
        · exact Extends.bind (fields rest) fun _ => Extends.refl _

theorem decodeValue_extends (fuel extra : Nat) (t : RType) :
    Extends .outOfFuel (decodeValue fuel t) (decodeValue (fuel + extra) t) := by
  induction extra with
  | zero => exact Extends.refl _
  | succ extra ih => exact ih.trans ((decoders_extend (fuel + extra)).1 t)

/-- A result of `DecodeBytes` other than running out of fuel is its result with any
more fuel. -/
theorem decodeBytes_of_le {fuel : Nat} (more : Nat) {t : RType} {b : List UInt8}
    (enough : decodeBytes fuel t b ≠ .error .outOfFuel) (le : fuel ≤ more) :
    decodeBytes more t b = decodeBytes fuel t b := by
  obtain ⟨extra, rfl⟩ := Nat.exists_eq_add_of_le le
  have running : ∀ s', (decodeValue fuel t).run (Stream.new b) ≠ .error .outOfFuel s' := by
    intro s' stopped
    apply enough
    simp only [decodeBytes, stopped]
  simp only [decodeBytes, decodeValue_extends fuel extra t (Stream.new b) running]

end Fuel


/-! ## A zero `[1]byte` leaves its kind behind

`decodeByteArray` reads a one-byte array of `0x00` with `bv, _ := s.Uint()`. `uint`
refuses the zero byte before it re-arms `Kind`, so the stream keeps the byte as the
kind of the value ahead although its input has moved on: the next read in the same
list sees the zero byte again. -/

section ZeroByteArray

/-- The stream inside a one-element list after its zero byte was read as a `[1]byte`. -/
def staleZero : Stream := ⟨[], some .byte, 0, 0, none, [⟨1, 1⟩]⟩

/-- From `staleZero` the slice loop never reaches the end of the list: each element
reads the stale zero byte again and leaves the stream as it was, so the loop stops only
when the fuel is gone. -/
theorem decodeSliceElems_staleZero (fuel i : Nat) :
    (decodeSliceElems fuel (.array 1 (.uint 8)) i).run staleZero = .error .outOfFuel staleZero := by
  induction fuel generalizing i with
  | zero => rfl
  | succ fuel ih =>
    cases fuel with
    | zero => rfl
    | succ fuel =>
      -- the element reads the stale byte and leaves the stream as it was
      have step : (decodeSliceElems (fuel + 2) (.array 1 (.uint 8)) i).run staleZero =
          (decodeSliceElems (fuel + 1) (.array 1 (.uint 8)) (i + 1) >>= fun rest =>
            pure (.list [.uint 0] :: rest)).run staleZero := rfl
      rw [step, EStateM.run_bind, ih]

/-- The stream of `C1 00` after its list header. -/
def zeroListOpened : Stream := ⟨[0x00], none, 0, 0, none, [⟨0, 1⟩]⟩

theorem list_zeroList :
    (wrapped Stream.list).run (Stream.new [0xC1, 0x00]) = .ok 1 zeroListOpened := rfl

/-- The first element of the list reads its zero byte and leaves it as the kind ahead. -/
theorem decodeValue_zeroListOpened (fuel : Nat) :
    (decodeValue (fuel + 1) (.array 1 (.uint 8))).run zeroListOpened = .ok (.list [.uint 0]) staleZero := rfl

theorem decodeSliceElems_zeroListOpened (fuel : Nat) :
    ∃ s, (decodeSliceElems fuel (.array 1 (.uint 8)) 0).run zeroListOpened = .error .outOfFuel s := by
  match fuel with
  | 0 => exact ⟨_, rfl⟩
  | 1 => exact ⟨_, rfl⟩
  | fuel + 2 =>
    have step : (decodeSliceElems (fuel + 2) (.array 1 (.uint 8)) 0).run zeroListOpened =
        (decodeSliceElems (fuel + 1) (.array 1 (.uint 8)) 1 >>= fun rest =>
          pure (.list [.uint 0] :: rest)).run staleZero := rfl
    exact ⟨staleZero, by rw [step, EStateM.run_bind, decodeSliceElems_staleZero]⟩

/-- `[][1]byte{{0}}`, encoded as `C1 00`, makes `DecodeBytes` loop: with any fuel it
runs out. -/
theorem decodeBytes_zero_array_slice (fuel : Nat) :
    decodeBytes fuel (.slice (.array 1 (.uint 8))) [0xC1, 0x00] = .error .outOfFuel := by
  have loops : ∃ s, (decodeValue fuel (.slice (.array 1 (.uint 8)))).run (Stream.new [0xC1, 0x00]) =
      .error .outOfFuel s := by
    match fuel with
    | 0 => exact ⟨_, rfl⟩
    | 1 => exact ⟨_, rfl⟩
    | fuel + 2 =>
      -- the list header is read, then the element loop runs out inside the list
      have step : (decodeValue (fuel + 2) (.slice (.array 1 (.uint 8)))).run (Stream.new [0xC1, 0x00]) =
          (decodeSliceElems fuel (.array 1 (.uint 8)) 0 >>= fun elems =>
            wrapped Stream.listEnd >>= fun _ => pure (RValue.list elems)).run zeroListOpened := rfl
      obtain ⟨s, stopped⟩ := decodeSliceElems_zeroListOpened fuel
      exact ⟨s, by rw [step, EStateM.run_bind, stopped]⟩
  obtain ⟨s, stopped⟩ := loops
  simp only [decodeBytes, stopped]

/-- `struct { A [1]byte; B uint64 }`. -/
def zeroArrayThenUint : RType := .struct [("A", .array 1 (.uint 8)), ("B", .uint 64)]

/-- `struct { A [1]byte; B []byte }`. -/
def zeroArrayThenBytes : RType := .struct [("A", .array 1 (.uint 8)), ("B", .slice (.uint 8))]

theorem zero_byte_array_breaks_round_trip (extra : Nat) :
    -- `[][1]byte{{0}}` encodes as `C1 00`, on which `DecodeBytes` never returns
    encodeToBytes (.slice (.array 1 (.uint 8))) (.list [.list [.uint 0]]) = [0xC1, 0x00] ∧
    decodeBytes extra (.slice (.array 1 (.uint 8))) [0xC1, 0x00] = .error .outOfFuel ∧
    -- `{[0], 5}` encodes as `C2 00 05`, which fails at `B`
    encodeToBytes zeroArrayThenUint (.list [.list [.uint 0], .uint 5]) = [0xC2, 0x00, 0x05] ∧
    decodeBytes (8 + extra) zeroArrayThenUint [0xC2, 0x00, 0x05] =
      .error (.decodeError "non-canonical integer (leading zero bytes)" [".B"]) ∧
    -- `C1 00` is accepted as `{[0], [0]}`, whose encoding is `C2 00 00`
    decodeBytes (8 + extra) zeroArrayThenBytes [0xC1, 0x00] = .ok (.list [.list [.uint 0], .list [.uint 0]]) ∧
    encodeToBytes zeroArrayThenBytes (.list [.list [.uint 0], .list [.uint 0]]) = [0xC2, 0x00, 0x00] := by
  refine ⟨by decide, decodeBytes_zero_array_slice extra, by decide, ?_, ?_, by decide⟩
  · rw [@decodeBytes_of_le 8 (8 + extra) _ _ (by decide +kernel) (by omega)]
    decide +kernel
  · rw [@decodeBytes_of_le 8 (8 + extra) _ _ (by decide +kernel) (by omega)]
    decide +kernel

end ZeroByteArray

end TomoChain.Rlp
