import TkeyFido2.Lib.Bytes

/-!
# The CBOR pull parser

The part of `cborparser.c` and `cbor.h` that the authenticator calls.  An iterator holds the input
from its read position to the end of the buffer, so that comparing `ptr` with `parser->end` is
asking whether anything is left.  The assertions of the library are compiled in; a failed one ends
the program and is a `Halt`, not an error code.
-/

namespace TkeyFido2

/-- Ways in which the program stops instead of returning. -/
inductive Halt
  /-- A failed `assert`. -/
  | assert
  /-- `exit(1)`. -/
  | exit
  /-- A loop that has not ended. -/
  | loop
  /-- A read past the end of a buffer. -/
  | overrun
  deriving DecidableEq, Repr

namespace Cbor

inductive CborError
  | unknownLength
  | advancePastEOF
  | unexpectedEOF
  | unexpectedBreak
  | unknownType
  | illegalType
  | illegalNumber
  | illegalSimpleType
  | dataTooLarge
  | nestingTooDeep
  | outOfMemory
  | tooManyItems
  | tooFewItems
  deriving DecidableEq, Repr

inductive Fault
  | err (e : CborError)
  | halt (h : Halt)
  deriving DecidableEq, Repr

/-- A call of the library. -/
abbrev CborM := Except Fault

def fail {α : Type} (e : CborError) : CborM α := .error (.err e)

/-- `cbor_assert`. -/
def cborAssert (c : Prop) [Decidable c] : CborM Unit := if c then .ok () else .error (.halt .assert)

inductive CborType
  | integer
  | byteString
  | textString
  | array
  | map
  | tag
  | simple
  | boolean
  | null
  | undefined
  | halfFloat
  | float
  | double
  | invalid
  deriving DecidableEq, Repr

/-- `CborValue`: the read position and what `preparse_value` found there. -/
structure CborValue where
  /-- The input from `ptr` to `parser->end`. -/
  rest : List UInt8
  remaining : UInt32
  type : CborType := .invalid
  extra : Nat := 0
  unknownLength : Bool := false
  iterating : Bool := false
  negative : Bool := false
  tooLarge : Bool := false
  deriving DecidableEq, Repr

def uint32Max : UInt32 := 0xffffffff
def breakByte : UInt8 := 0xff
def cborParserMaxRecursions : Nat := 1024

def smallValue (b : UInt8) : Nat := b.toNat % 32
def majorType (b : UInt8) : Nat := b.toNat / 32

/-- A big-endian number. -/
def beNat (l : List UInt8) : Nat := l.foldl (fun a b => a * 256 + b.toNat) 0

/-- `_cbor_value_extract_number`: the number behind the descriptor byte, and the input after it.
It is not called at the end of the input. -/
def extractNumber : List UInt8 → CborM (Nat × List UInt8)
  | [] => fail .unexpectedEOF
  | b :: rest =>
    if smallValue b < 24 then .ok (smallValue b, rest)
    else if 27 < smallValue b then fail .illegalNumber
    else
      let bytesNeeded := 2 ^ (smallValue b - 24)
      if rest.length < bytesNeeded then fail .unexpectedEOF
      else .ok (beNat (rest.take bytesNeeded), rest.drop bytesNeeded)

/-- `extract_length`: `size_t` has 32 bits. -/
def extractLength (l : List UInt8) : CborM (Nat × List UInt8) := do
  let (v, rest) ← extractNumber l
  if 2 ^ 32 ≤ v then fail .dataTooLarge else .ok (v, rest)

/-! ## Reading the next item -/

/-- The types of the major types 0 to 6; 7 holds the simple values. -/
def typeOfMajor : Nat → CborType
  | 0 => .integer
  | 1 => .integer
  | 2 => .byteString
  | 3 => .textString
  | 4 => .array
  | 5 => .map
  | 6 => .tag
  | _ => .simple

def isFixedType (t : CborType) : Bool :=
  t ≠ .textString ∧ t ≠ .byteString ∧ t ≠ .array ∧ t ≠ .map

/-- The simple values: the `switch (descriptor)` of `preparse_value`. -/
def preparseSimple (it : CborValue) (descriptor : Nat) (next : UInt8) : CborM CborValue :=
  match descriptor with
  | 20 => .ok { it with type := .boolean, extra := 0 }
  | 21 => .ok { it with type := .boolean }
  | 22 => .ok { it with type := .null }
  | 23 => .ok { it with type := .undefined }
  | 24 => if next < 32 then fail .illegalSimpleType
          else .ok { it with type := .simple, extra := next.toNat }
  | 25 => .ok { it with type := .halfFloat }
  | 26 => .ok { it with type := .float, tooLarge := true }
  | 27 => .ok { it with type := .double, tooLarge := true }
  | _ => .ok { it with type := .simple }

/-- `preparse_value`. -/
def preparseValue (it : CborValue) : CborM CborValue :=
  match it.rest with
  | [] => fail .unexpectedEOF
  | b :: tl =>
    let major := majorType b
    let descriptor := smallValue b
    let it : CborValue := { rest := it.rest, remaining := it.remaining, type := typeOfMajor major,
                            extra := descriptor }
    if 27 < descriptor then
      if descriptor ≠ 31 then fail (if major = 7 then .unknownType else .illegalNumber)
      else if !isFixedType it.type then .ok { it with unknownLength := true }
      else fail (if major = 7 then .unexpectedBreak else .illegalNumber)
    else
      let bytesNeeded := if descriptor < 24 then 0 else 2 ^ (descriptor - 24)
      if tl.length < bytesNeeded then fail .unexpectedEOF
      else if major = 1 then decodeSmall { it with negative := true } descriptor tl
      else if major = 7 then preparseSimple it descriptor (tl.headD 0)
      else decodeSmall it descriptor tl
where
  /-- The argument, when it has at most 16 bits. -/
  decodeSmall (it : CborValue) (descriptor : Nat) (tl : List UInt8) : CborM CborValue :=
    if descriptor < 24 then .ok it
    else if descriptor = 24 then .ok { it with extra := beNat (tl.take 1) }
    else if descriptor = 25 then .ok { it with extra := beNat (tl.take 2) }
    else .ok { it with tooLarge := true }

/-- `preparse_next_value_nodecrement`. -/
def preparseNextValueNodecrement (it : CborValue) : CborM CborValue :=
  match it.rest with
  | b :: tl =>
    if it.remaining = uint32Max ∧ b = breakByte then
      .ok { it with rest := tl, type := .invalid, remaining := 0 }
    else preparseValue it
  | [] => preparseValue it

/-- `preparse_next_value`: a tag does not count as an item. -/
def preparseNextValue (it : CborValue) : CborM CborValue :=
  if it.remaining ≠ uint32Max ∧ it.type ≠ .tag then
    let it := { it with remaining := it.remaining - 1 }
    if it.remaining = 0 then .ok { it with type := .invalid }
    else preparseNextValueNodecrement it
  else preparseNextValueNodecrement it

/-- `cbor_parser_init`. -/
def cborParserInit (buffer : List UInt8) : CborM CborValue :=
  preparseValue { rest := buffer, remaining := 1 }

/-! ## Accessors -/

namespace CborValue

def isContainer (it : CborValue) : Bool := it.type = .array ∨ it.type = .map
def isString (it : CborValue) : Bool := it.type = .byteString ∨ it.type = .textString
def atEnd (it : CborValue) : Bool := it.remaining = 0

/-- `_cbor_value_extract_int64_helper`. -/
def extractInt64 (it : CborValue) : Nat :=
  if it.tooLarge then
    match it.rest with
    | [] => 0
    | b :: tl => if smallValue b = 26 then beNat (tl.take 4) else beNat (tl.take 8)
  else it.extra

/-- `cbor_value_get_boolean`. -/
def getBoolean (it : CborValue) : CborM Bool := do
  cborAssert (it.type = .boolean)
  pure (it.extra ≠ 0)

/-- `cbor_value_get_uint64`. -/
def getUint64 (it : CborValue) : CborM Nat := do
  cborAssert (it.type = .integer ∧ it.negative = false)
  pure it.extractInt64

/-- `cbor_value_get_int64`: the unsigned value cut to 64 signed bits, then negated. -/
def getInt64 (it : CborValue) : CborM Int := do
  cborAssert (it.type = .integer)
  let v := Int.bmod it.extractInt64 (2 ^ 64)
  pure (if it.negative then Int.bmod (-v - 1) (2 ^ 64) else v)

/-- `cbor_value_get_int`: the unsigned value cut to 32 signed bits, then negated. -/
def getInt (it : CborValue) : CborM Int := do
  cborAssert (it.type = .integer)
  let v := Int.bmod it.extractInt64 (2 ^ 32)
  pure (if it.negative then Int.bmod (-v - 1) (2 ^ 32) else v)

/-- `cbor_value_get_int_checked`. -/
def getIntChecked (it : CborValue) : CborM Int := do
  cborAssert (it.type = .integer)
  if 2 ^ 31 ≤ it.extractInt64 then fail .dataTooLarge
  else pure (if it.negative then -(it.extractInt64 : Int) - 1 else it.extractInt64)

/-- The common body of `cbor_value_get_string_length`, `_array_length` and `_map_length`. -/
def getLength (it : CborValue) : CborM Nat :=
  if it.unknownLength then fail .unknownLength
  else if 2 ^ 32 ≤ it.extractInt64 then fail .dataTooLarge
  else pure it.extractInt64

def getStringLength (it : CborValue) : CborM Nat := do
  cborAssert (it.isString = true)
  it.getLength

def getArrayLength (it : CborValue) : CborM Nat := do
  cborAssert (it.type = .array)
  it.getLength

def getMapLength (it : CborValue) : CborM Nat := do
  cborAssert (it.type = .map)
  it.getLength

end CborValue

/-! ## Moving on -/

/-- `advance_internal`, for the types of fixed size that it is called with. -/
def advanceInternal (it : CborValue) : CborM CborValue :=
  match extractNumber it.rest with
  | .error _ => .error (.halt .assert)
  | .ok (_, rest) => preparseNextValue { it with rest }

/-- `cbor_value_advance_fixed`. -/
def advanceFixed (it : CborValue) : CborM CborValue := do
  cborAssert (it.type ≠ .invalid)
  cborAssert (isFixedType it.type)
  if it.atEnd then fail .advancePastEOF else advanceInternal it

/-- `cbor_value_enter_container`. -/
def enterContainer (it : CborValue) : CborM CborValue := do
  cborAssert (it.isContainer)
  if it.unknownLength then
    preparseNextValueNodecrement { it with remaining := uint32Max, rest := it.rest.drop 1 }
  else
    match extractNumber it.rest with
    | .error _ => .error (.halt .assert)
    | .ok (len, rest) =>
      if 2 ^ 32 - 1 ≤ len then fail .dataTooLarge
      else if it.type = .map ∧ 2 ^ 31 ≤ len then fail .dataTooLarge
      else
        let remaining := UInt32.ofNat (if it.type = .map then 2 * len else len)
        if len = 0 then .ok { it with rest, remaining, type := .invalid }
        else preparseNextValueNodecrement { it with rest, remaining }

/-- `cbor_value_leave_container`. -/
def leaveContainer (it recursed : CborValue) : CborM CborValue := do
  cborAssert (it.isContainer)
  cborAssert (recursed.type = .invalid)
  preparseNextValue { it with rest := recursed.rest }

/-! ## Strings -/

/-- `get_string_chunk`: the next chunk, or `none` behind the last one. -/
def getStringChunk (it : CborValue) : CborM (Option (List UInt8) × CborValue) :=
  if it.iterating ∧ !it.unknownLength then lastChunk it
  else
    -- prepare_string_iteration
    let it := if !it.iterating ∧ it.unknownLength then
      { it with rest := it.rest.drop 1, iterating := true } else it
    match it.rest with
    | [] => fail .unexpectedEOF
    | b :: tl =>
      if b = breakByte then lastChunk { it with rest := tl }
      else if typeOfMajor (majorType b) = it.type then do
        let (len, rest) ← extractLength it.rest
        if rest.length < len then fail .unexpectedEOF
        else .ok (some (rest.take len), { it with rest := rest.drop len, iterating := true })
      else fail .illegalType
where
  lastChunk (it : CborValue) : CborM (Option (List UInt8) × CborValue) := do
    let it ← preparseNextValue it
    pure (none, it)

/-- The chunks read by the loop of `iterate_string_chunks` and how it ended. -/
def stringChunksAux : Nat → CborValue → List (List UInt8) × CborM CborValue
  | 0, _ => ([], .error (.halt .loop))
  | fuel + 1, it =>
    match getStringChunk it with
    | .error e => ([], .error e)
    | .ok (none, next) => ([], .ok next)
    | .ok (some chunk, next) =>
      let r := stringChunksAux fuel next
      (chunk :: r.1, r.2)

def stringChunks (it : CborValue) : List (List UInt8) × CborM CborValue :=
  if it.isString then stringChunksAux (it.rest.length + 2) it
  else ([], .error (.halt .assert))

/-- The chunks that `iterate_memcpy` copies into a buffer of `room` bytes, and whether all fit. -/
def fitChunks (room : Nat) : List (List UInt8) → List UInt8 × Bool
  | [] => ([], true)
  | c :: cs =>
    if c.length ≤ room then
      let r := fitChunks (room - c.length) cs
      (c ++ r.1, r.2)
    else ([], false)

/-- What `_cbor_value_copy_string` leaves behind: the bytes it wrote to the start of the buffer, also
when it fails, and otherwise the length of the string and the item after it. -/
structure StringCopy where
  written : List UInt8
  result : CborM (Nat × CborValue)

/-- `_cbor_value_copy_string` into a buffer of `buflen` bytes; a zero byte follows where it fits. -/
def copyString (it : CborValue) (buflen : Nat) : StringCopy :=
  let r := stringChunks it
  let fit := fitChunks buflen r.1
  match r.2 with
  | .error e => ⟨fit.1, .error e⟩
  | .ok next =>
    if fit.2 then
      ⟨if fit.1.length < buflen then fit.1 ++ [0] else fit.1, .ok (fit.1.length, next)⟩
    else ⟨fit.1, fail .outOfMemory⟩

def copyByteString (it : CborValue) (buflen : Nat) : StringCopy :=
  if it.type = .byteString then copyString it buflen else ⟨[], .error (.halt .assert)⟩

def copyTextString (it : CborValue) (buflen : Nat) : StringCopy :=
  if it.type = .textString then copyString it buflen else ⟨[], .error (.halt .assert)⟩

/-- `cbor_value_calculate_string_length`. -/
def calculateStringLength (it : CborValue) : CborM Nat := do
  let _ ← (stringChunks it).2
  pure (stringChunks it).1.flatten.length

/-! ## Skipping items -/

/-- Repeat `body` until the iterator is at its end. -/
def untilEnd (body : CborValue → CborM CborValue) : Nat → CborValue → CborM CborValue
  | 0, _ => .error (.halt .loop)
  | fuel + 1, it => if it.atEnd then .ok it else do
    let it ← body it
    untilEnd body fuel it

/-- `advance_recursive`. -/
def advanceRecursive : Nat → CborValue → CborM CborValue
  | nestingLevel, it =>
    if isFixedType it.type then advanceInternal it
    else if !it.isContainer then (stringChunks it).2
    else
      match nestingLevel with
      | 0 => fail .nestingTooDeep
      | level + 1 => do
        let recursed ← enterContainer it
        let recursed ← untilEnd (advanceRecursive level) (recursed.rest.length + 2) recursed
        leaveContainer it recursed

/-- `cbor_value_advance`. -/
def advance (it : CborValue) : CborM CborValue := do
  cborAssert (it.type ≠ .invalid)
  if it.atEnd then fail .advancePastEOF else advanceRecursive cborParserMaxRecursions it

def skipTagAux : Nat → CborValue → CborM CborValue
  | 0, _ => .error (.halt .loop)
  | fuel + 1, it => if it.type = .tag then do
      let it ← advanceFixed it
      skipTagAux fuel it
    else .ok it

/-- `cbor_value_skip_tag`. -/
def skipTag (it : CborValue) : CborM CborValue := skipTagAux (it.rest.length + 2) it

/-- The search loop of `cbor_value_map_find_value`. -/
def mapFindAux (key : List UInt8) : Nat → CborValue → CborM CborValue
  | 0, _ => .error (.halt .loop)
  | fuel + 1, it =>
    if it.atEnd then .ok { it with type := .invalid }
    else do
      let it ← skipTag it
      if it.type = .textString then
        let next ← (stringChunks it).2
        if (stringChunks it).1.flatten = key then preparseValue next
        else
          let it ← skipTag next
          let it ← advance it
          mapFindAux key fuel it
      else
        let it ← advance it
        let it ← skipTag it
        let it ← advance it
        mapFindAux key fuel it

/-- `cbor_value_map_find_value`: the value under a text key, or an item of invalid type. -/
def mapFindValue (map : CborValue) (key : List UInt8) : CborM CborValue := do
  cborAssert (map.type = .map)
  let element ← enterContainer map
  mapFindAux key (element.rest.length + 2) element

end Cbor

end TkeyFido2
