import TkeyFido2.Cbor.Parser

/-!
# The CBOR encoder

`cborencoder.c` with a fixed output buffer.  A container is encoded by an encoder of its own that
takes over the buffer when it is created and gives it back when it is closed, so that an encoder is
the bytes written so far, the room behind them, and the item count of its container plus one.
-/

namespace TkeyFido2.Cbor

structure Encoder where
  out : List UInt8 := []
  room : Nat
  remaining : Nat := 2
  deriving DecidableEq, Repr

/-- A call of the encoder. -/
abbrev EncM := Except CborError

namespace Encoder

/-- `cbor_encoder_init`. -/
def init (size : Nat) : Encoder := { room := size }

/-- `append_to_buffer`. -/
def append (e : Encoder) (data : List UInt8) : EncM Encoder :=
  if e.room < data.length then .error .outOfMemory
  else .ok { e with out := e.out ++ data, room := e.room - data.length }

/-- The `n` low bytes of a number, big-endian. -/
def beBytes (v : Nat) : Nat → List UInt8
  | 0 => []
  | n + 1 => beBytes (v / 256) n ++ [UInt8.ofNat v]

/-- The descriptor and argument bytes of `encode_number_no_update`. -/
def numberBytes (ui : Nat) (majorType : Nat) : List UInt8 :=
  let major := 32 * majorType
  if ui < 24 then [UInt8.ofNat (major + ui)]
  else if ui ≤ 0xff then UInt8.ofNat (major + 24) :: beBytes ui 1
  else if ui ≤ 0xffff then UInt8.ofNat (major + 25) :: beBytes ui 2
  else if ui ≤ 0xffffffff then UInt8.ofNat (major + 26) :: beBytes ui 4
  else UInt8.ofNat (major + 27) :: beBytes ui 8

/-- `encode_number`. -/
def number (e : Encoder) (ui majorType : Nat) : EncM Encoder :=
  { e with remaining := e.remaining - 1 }.append (numberBytes ui majorType)

/-- `cbor_encode_uint`. -/
def uint (e : Encoder) (v : Nat) : EncM Encoder := e.number v 0

/-- `cbor_encode_int`. -/
def int (e : Encoder) (v : Int) : EncM Encoder :=
  if 0 ≤ v then e.number v.toNat 0 else e.number (-v - 1).toNat 1

/-- `cbor_encode_negative_int`. -/
def negativeInt (e : Encoder) (absoluteValue : Nat) : EncM Encoder := e.number (absoluteValue - 1) 1

/-- `cbor_encode_boolean`. -/
def boolean (e : Encoder) (b : Bool) : EncM Encoder := e.number (if b then 21 else 20) 7

/-- `encode_string`. -/
def string (e : Encoder) (s : List UInt8) (majorType : Nat) : EncM Encoder := do
  let e ← e.number s.length majorType
  e.append s

/-- `cbor_encode_byte_string`. -/
def byteString (e : Encoder) (s : List UInt8) : EncM Encoder := e.string s 2

/-- `cbor_encode_text_string`. -/
def textString (e : Encoder) (s : List UInt8) : EncM Encoder := e.string s 3

/-- `cbor_encoder_create_array`; the result is the encoder of the array. -/
def createArray (e : Encoder) (length : Nat) : EncM Encoder :=
  { e with remaining := length + 1 }.append (numberBytes length 4)

/-- `cbor_encoder_create_map`; the result is the encoder of the map. -/
def createMap (e : Encoder) (length : Nat) : EncM Encoder :=
  { e with remaining := 2 * length + 1 }.append (numberBytes length 5)

/-- `cbor_encoder_close_container`. -/
def close (e container : Encoder) : EncM Encoder :=
  if container.remaining ≠ 1 then
    .error (if container.remaining = 0 then .tooManyItems else .tooFewItems)
  else .ok { out := container.out, room := container.room, remaining := e.remaining - 1 }

end Encoder

end TkeyFido2.Cbor
