import TkeyFido2.Cbor.Encoder
import TkeyFido2.Ctap.Crypto

/-!
# The state file

`state.c` and the envelope of `authenticator_read_state` and `authenticator_write_state`: magic
byte, MAC under the device key, CBOR map of the eight fields.
-/

namespace TkeyFido2

open Cbor

def stateVersion : UInt8 := 1
def stateMagic : UInt8 := 0xA5
def stateEnvelopeBufSize : Nat := 192
def stateMacSize : Nat := 16

/-! ## Encoding -/

/-- `state_cbor_encode`. -/
def stateCborEncode (bufLen : Nat) (s : AuthState) : EncM (List UInt8) := do
  let encoder := Encoder.init bufLen
  let map ← encoder.createMap 8
  let map ← map.uint 0
  let map ← map.uint s.version.toNat
  let map ← map.uint 1
  let map ← map.uint s.appVersion.toNat
  let map ← map.uint 10
  let map ← map.uint s.isPinSet.toNat
  let map ← map.uint 11
  let map ← map.int s.remainingTries.toInt
  let map ← map.uint 12
  let map ← map.byteString s.pinHashEnc.toList
  let map ← map.uint 13
  let map ← map.byteString s.pinHashIv.toList
  let map ← map.uint 20
  let map ← map.uint s.rkStored.toNat
  let map ← map.uint 30
  let map ← map.byteString s.keySalt.toList
  let encoder ← encoder.close map
  pure encoder.out

/-! ## Decoding -/

/-- `get_u8`, `get_u16` and `get_u32`: an unsigned number below `2 ^ bits`. -/
def getUnsigned (bits : Nat) (it : CborValue) : CborM (Option Nat) := do
  let v ← it.getUint64
  pure (if v < 2 ^ bits then some v else none)

/-- `get_i8`. -/
def getI8 (it : CborValue) : CborM (Option Int8) := do
  let v ← it.getInt64
  pure (if -128 ≤ v ∧ v ≤ 127 then some (Int8.ofInt v) else none)

/-- A byte string member of `n` bytes; `none` is a decoding error. -/
def getField {n : Nat} (it : CborValue) (old : Bytes n) : CborM (Option (Bytes n)) :=
  let r := copyByteString it n
  match r.result with
  | .ok _ => pure (some (old.patch 0 r.written))
  | .error (.err _) => pure none
  | .error (.halt h) => .error (.halt h)

/-- The `switch` of `state_cbor_decode`: the state with the member under `key`, or `none` where the
function returns an error, and the item to skip next. -/
def stateDecodeMember (s : AuthState) (key : Nat) (it : CborValue) :
    CborM (Option (AuthState × CborValue)) := do
  match key with
  | 0 => do
    let v ← getUnsigned 8 it
    pure (v.bind fun v => if v = stateVersion.toNat then
      some ({ s with version := stateVersion }, it) else none)
  | 1 => do
    let v ← getUnsigned 32 it
    pure (v.map fun v => ({ s with appVersion := UInt32.ofNat v }, it))
  | 10 => do
    let v ← getUnsigned 8 it
    pure (v.map fun v => ({ s with isPinSet := UInt8.ofNat v }, it))
  | 11 => do
    let v ← getI8 it
    pure (v.map fun v => ({ s with remainingTries := v }, it))
  | 12 => do
    let v ← getField it s.pinHashEnc
    pure (v.map fun v => ({ s with pinHashEnc := v }, it))
  | 13 => do
    let v ← getField it s.pinHashIv
    pure (v.map fun v => ({ s with pinHashIv := v }, it))
  | 20 => do
    let v ← getUnsigned 16 it
    pure (v.map fun v => ({ s with rkStored := UInt16.ofNat v }, it))
  | 30 => do
    let v ← getField it s.keySalt
    pure (v.map fun v => ({ s with keySalt := v }, it))
  | _ => do
    let it ← advance it
    pure (some (s, it))

/-- The loop of `state_cbor_decode`.  The source ignores the result of its `cbor_value_advance`
calls; an item that cannot be skipped ends the decoding here, which only happens for a map that the
device did not write. -/
def stateDecodeLoop : Nat → AuthState → CborValue → CborM (Option AuthState)
  | 0, _, _ => .error (.halt .loop)
  | fuel + 1, s, it =>
    if it.atEnd then pure (some s)
    else do
      let key ← it.getUint64
      let it ← advance it
      match ← stateDecodeMember s key it with
      | none => pure none
      | some (s, it) =>
        let it ← advance it
        stateDecodeLoop fuel s it

/-- `state_cbor_decode` into a structure that holds `s`; `none` is a non-zero result. -/
def stateCborDecode (s : AuthState) (buf : List UInt8) : CborM (Option AuthState) :=
  let loop : CborM (Option AuthState) := do
    let it ← cborParserInit buf
    let map ← enterContainer it
    stateDecodeLoop (map.rest.length + 2) s map
  match loop with
  | .error (.err _) => pure none
  | r => r

/-! ## The envelope -/

variable (P : Platform)

/-- `crypto_compute_device_mac`. -/
def deviceMac (data : List UInt8) : List UInt8 :=
  (P.prims.hmac P.keyDeviceMac.toList data).toList.take stateMacSize

/-- The bytes that `authenticator_write_state` writes; an encoding error is a failed assertion. -/
def stateEnvelope (s : AuthState) : EncM (List UInt8) := do
  let cbor ← stateCborEncode (stateEnvelopeBufSize - 1 - stateMacSize) s
  pure ([stateMagic] ++ deviceMac P cbor ++ cbor)

/-- `fs_read_open` of a file into a buffer; `none` is `LFS_ERR_NOSPC`. -/
def fsReadOpen (file : List UInt8) (bufLen : Nat) : Option (List UInt8) :=
  if bufLen < file.length then none else some file

/-- The `cbor_size` of `authenticator_read_state` for a number of bytes read: a `size_t` of the 32-bit
target. -/
def cborSize (ret : Nat) : UInt32 := UInt32.ofNat ret - 1 - 16

/-- `authenticator_read_state` of a file into a structure that holds `s`; `none` is the result 0.
An empty file is a new one. -/
def readEnvelope (s : AuthState) (file : List UInt8) : CborM (Option AuthState) :=
  match fsReadOpen file stateEnvelopeBufSize with
  | none => pure none
  | some [] => pure none
  | some (magic :: rest) =>
    if magic ≠ stateMagic then pure none
    -- `crypto_verify_device_mac` reads `cbor_size` bytes behind the MAC
    else if stateEnvelopeBufSize < 1 + stateMacSize + (cborSize (rest.length + 1)).toNat then
      .error (.halt .overrun)
    else if deviceMac P (rest.drop stateMacSize) ≠ rest.take stateMacSize then pure none
    else stateCborDecode s (rest.drop stateMacSize)

end TkeyFido2
