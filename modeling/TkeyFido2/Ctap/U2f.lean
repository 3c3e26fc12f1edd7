import TkeyFido2.Ctap.MakeCredential

/-!
# U2F

`u2f.c`.  A request is cast out of `ctap_buffer` at fixed offsets, whatever the length of the message
was, and a signature is made in place over the challenge.
-/

namespace TkeyFido2

/-- `ctap_buffer` of `ctaphid.c`. -/
abbrev CtapBuffer := Bytes 1344

def u2fSwNoError : UInt16 := 0x9000
def u2fSwConditionsNotSatisfied : UInt16 := 0x6985
def u2fSwInsNotSupported : UInt16 := 0x6d00
def u2fSwWrongLength : UInt16 := 0x6700
def u2fSwClassNotSupported : UInt16 := 0x6E00
def u2fSwWrongData : UInt16 := 0x6a80
def u2fSwInsufficientMemory : UInt16 := 0x9210

/-! ## struct u2f_request_apdu -/

namespace CtapBuffer

def cla (b : CtapBuffer) : UInt8 := b.byte 0
def ins (b : CtapBuffer) : UInt8 := b.byte 1
def p1 (b : CtapBuffer) : UInt8 := b.byte 2

/-- `LC1`, `LC2` and `LC3`. -/
def lc (b : CtapBuffer) : Nat := (b.byte 6).toNat + (b.byte 5).toNat * 256 + (b.byte 4).toNat * 65536

/-- The fields of the payload: `chal`, `app`, `khl` and `kh`. -/
def chal (b : CtapBuffer) : Bytes 32 := b.slice 7 32
def app (b : CtapBuffer) : Bytes 32 := b.slice 39 32
def khl (b : CtapBuffer) : UInt8 := b.byte 71
def kh (b : CtapBuffer) : CredentialId := ⟨b.slice 72 57⟩

/-- A signature in place of the start of the payload. -/
def putSignature (b : CtapBuffer) (sig : Bytes 64) : CtapBuffer := b.patch 7 sig.toList

end CtapBuffer

/-! ## Commands -/

/-- Status word, response so far, and the signature that was written into the request. -/
structure U2fReply where
  rcode : UInt16
  out : List UInt8 := []
  sig : Option (Bytes 64) := none

def ctapResponseBufferSize : Nat := 1200

/-- `u2f_response_writeback`. -/
def u2fResponseWriteback (out buf : List UInt8) : CtapM (List UInt8) :=
  if ctapResponseBufferSize < out.length + buf.length then throw (.halt .exit) else pure (out ++ buf)

/-- `crypto_ecc256_sign` with a loaded key. -/
def cryptoEcc256Sign (P : Platform) (key hash : Bytes 32) : CtapM (Bytes 64) := do
  match ← drawing (P.prims.eccSign key hash) with
  | some sig => pure sig
  | none => throw (.halt .exit)

/-- `u2f_authenticate_credential`, also for a FIDO2 credential ID. -/
def u2fAuthenticateKeyHandle (C : Primitives) (k : SessionKeys) (kh : CredentialId) (khl : UInt8)
    (appid : Bytes 32) : Bool :=
  if khl = 57 then
    kh.rpIdLookup = appid.slice 0 16 &&
      kh.tag = ctapMakeAuthTag C k kh.version (appid.slice 0 16) kh.nonce kh.protectedMetadata kh.count
  else if khl = 48 then u2fAuthenticateCredential C k kh appid
  else false

variable (P : Platform)

/-- `u2f_authenticate`. -/
def u2fAuthenticate (b : CtapBuffer) : CtapM U2fReply := do
  let k := (← get).keys
  let authentic := u2fAuthenticateKeyHandle P.prims k b.kh b.khl b.app
  if b.p1 = 7 then
    pure { rcode := if authentic then u2fSwConditionsNotSatisfied else u2fSwWrongData }
  else if (b.p1 ≠ 3 ∧ b.p1 ≠ 8) ∨ authentic = false then pure { rcode := u2fSwWrongData }
  else
    let key := cryptoDeriveCredentialKey P.prims k (b.kh.raw.toList.take b.khl.toNat)
    let up : UInt8 := if b.p1 = 8 then 0 else 1
    let touch ← if b.p1 = 8 then pure .present else ctapUserPresenceTest
    if touch = .absent then pure { rcode := u2fSwConditionsNotSatisfied }
    else
      let count ← ctapAtomicCount 0
      let sig ← cryptoEcc256Sign P key
        (P.prims.sha256 (b.app.toList ++ [up] ++ be32 count ++ b.chal.toList))
      let out ← u2fResponseWriteback [] [up]
      let out ← u2fResponseWriteback out (be32 count)
      let out ← u2fResponseWriteback out (ctapEncodeDerSig sig)
      pure { rcode := u2fSwNoError, out := out, sig := some sig }

/-- `u2f_register`.  Without an attestation key, `key_attest` is zero. -/
def u2fRegister (b : CtapBuffer) : CtapM U2fReply := do
  let touch ← ctapUserPresenceTest
  if touch = .absent then pure { rcode := u2fSwConditionsNotSatisfied }
  else
    let key ← ctapGenerateRng 32
    let keyHandle := (u2fMakeAuthTag P.prims (← get).keys key b.app).toList ++ key.toList
    let pubkey ← cryptoEcc256DerivePublicKey P keyHandle
    let (keyEnc, nonce) := (← get).attestationKey.getD (Bytes.zero 32, Bytes.zero 16)
    let sig ← cryptoEcc256Sign P (P.prims.aesCtr P.keyAttestationEnc nonce keyEnc)
      (P.prims.sha256 ([0] ++ b.app.toList ++ b.chal.toList ++ keyHandle ++ [4] ++ pubkey.toList))
    let out ← u2fResponseWriteback [] [5, 4]
    let out ← u2fResponseWriteback out pubkey.toList
    let out ← u2fResponseWriteback out [48]
    let out ← u2fResponseWriteback out keyHandle
    match attestationReadCert (← get) with
    | none => pure { rcode := u2fSwInsufficientMemory, sig := some sig }
    | some cert =>
      let out ← u2fResponseWriteback out cert
      let out ← u2fResponseWriteback out (ctapEncodeDerSig sig)
      pure { rcode := u2fSwNoError, out := out, sig := some sig }

/-- `u2f_version`. -/
def u2fVersion : CtapM U2fReply := do
  let out ← u2fResponseWriteback [] (ascii "U2F_V2")
  pure { rcode := u2fSwNoError, out := out }

/-- The `switch` of `u2f_request_ex`. -/
def u2fCommand (b : CtapBuffer) : CtapM U2fReply :=
  match b.ins.toNat with
  | 1 => if b.lc ≠ 64 then pure { rcode := u2fSwWrongLength } else u2fRegister P b
  | 2 => u2fAuthenticate P b
  | 3 => if b.lc ≠ 0 then pure { rcode := u2fSwWrongLength } else u2fVersion
  | 0xc0 | 0xff => pure { rcode := u2fSwNoError }
  | _ => pure { rcode := u2fSwInsNotSupported }

/-- `u2f_request`: the response and what becomes of the buffer. -/
def u2fRequest (b : CtapBuffer) : CtapM (List UInt8 × CtapBuffer) := do
  let r ← if b.cla ≠ 0 then pure { rcode := u2fSwClassNotSupported } else u2fCommand P b
  let out := if r.rcode = u2fSwNoError then r.out else []
  let out ← u2fResponseWriteback out [UInt8.ofNat (r.rcode.toNat / 256)]
  let out ← u2fResponseWriteback out [UInt8.ofNat r.rcode.toNat]
  pure (out, (r.sig.map b.putSignature).getD b)

end TkeyFido2
