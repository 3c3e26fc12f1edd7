import TkeyFido2.Ctap.ClientPin

/-!
# Authenticator data

`ctap_make_auth_data` with the creation of credentials, and the extension outputs.
-/

namespace TkeyFido2

open Cbor

/-! ## Extension outputs -/

variable (P : Platform)

/-- The hmac-secret part of `ctap_extensions_encode_output` for a credential: the encrypted
outputs. -/
def hmacSecretOutput (ext : Extensions) (credential : CredentialId) : CtapM (List UInt8) := do
  let (sharedSecret, _) ← ecdh P ext.keyAgreement.pubkey 1
  let saltLen := ext.saltLen.toNat
  failIf (¬ clientPinVerify P.prims sharedSecret (ext.saltEnc.toList.take saltLen) ext.saltAuth 1)
    .pinAuthInvalid
  let w ← get
  let credRandom := P.prims.hmac w.keys.hmacExt.toList (credential.raw.toList ++ [w.ga.userVerified])
  let salt := ext.saltEnc.patch 0
    (P.prims.aesCbcDecrypt sharedSecret (Bytes.zero 16) (ext.saltEnc.slice 0 saltLen)).toList
  let out1 := P.prims.hmac credRandom.toList (salt.toList.take 32)
  let out2 := if saltLen = 64 then P.prims.hmac credRandom.toList (salt.toList.drop 32)
    else Bytes.zero 32
  let out := (P.prims.aesCbcEncrypt sharedSecret (Bytes.zero 16)
    ((Bytes.append out1 out2).slice 0 saltLen)).toList
  emit (.hmacOutput credential w.ga.userVerified out)
  pure out

/-- The output of hmac-secret, where the request asks for one. -/
def hmacSecretOutput? (ext : Extensions) (credential : CredentialId) : CtapM (Option (List UInt8)) :=
  if ext.hmacSecretPresent = .parsed then some <$> hmacSecretOutput P ext credential else pure none

/-- The map of `ctap_extensions_encode_output` in a buffer of `size` bytes. -/
def encodeExtensions (output : Option (List UInt8)) (requested : Bool) (credProtect : Option UInt8)
    (size : Nat) : EncM (List UInt8) := do
  let extensions := Encoder.init size
  let map ← extensions.createMap
    (output.isSome.toNat + requested.toNat + credProtect.isSome.toNat)
  let map ← match output with
    | some output => do
      let map ← map.textString (ascii "hmac-secret")
      map.byteString output
    | none => pure map
  let map ← match credProtect with
    | some level => do
      let map ← map.textString (ascii "credProtect")
      map.int level.toNat
    | none => pure map
  let map ← if requested then do
      let map ← map.textString (ascii "hmac-secret")
      map.boolean true
    else pure map
  let extensions ← extensions.close map
  pure extensions.out

/-- `ctap_extensions_encode_output` into a buffer of `size` bytes: the bytes of the map, none where
no extension is used.  `credential` is what the pointer in `ext` points to. -/
def ctapExtensionsEncodeOutput (ext : Extensions) (credential : CredentialId) (size : Nat) :
    CtapM (List UInt8) := do
  let output ← hmacSecretOutput? P ext credential
  let requested : Bool := ext.hmacSecretPresent = .requested
  let credProtect := if 1 ≤ ext.credProtect ∧ ext.credProtect ≤ 3 then some ext.credProtect else none
  if output = none ∧ requested = false ∧ credProtect = none then pure []
  else encode (encodeExtensions output requested credProtect size)

/-! ## Resident keys -/

/-- `CTAP_credInfo`. -/
structure CredInfo where
  user : UserEntity := {}
  publicKeyCredentialType : CredType := .none
  coseAlgorithmIdentifier : Option CoseAlg := none
  rk : Bool := false
  deriving DecidableEq

/-- The horizontal ellipsis. -/
def ellipsis : List UInt8 := [0xe2, 0x80, 0xa6]

/-- `truncate_rpid`: the stored bytes. -/
def truncateRpid (rpid : List UInt8) : List UInt8 :=
  if rpid.length ≤ 32 then rpid
  else
    let protocol := if 0x3a ∈ rpid then (rpid.take (rpid.idxOf 0x3a + 1)).take 32 else []
    if 32 - protocol.length < 3 then protocol
    else
      let start := protocol ++ ellipsis
      start ++ rpid.drop (rpid.length - (32 - start.length))

/-- The record that `ctap_make_auth_data` stores for a new credential. -/
def makeResidentKey (k : SessionKeys) (id : CredentialId) (user : UserEntity) (rpIdHash : Bytes 32)
    (rpId : List UInt8) (rkNonce : Bytes 16) : ResidentKey :=
  let stored := truncateRpid rpId
  let plain : ResidentKey :=
    { id := id
      userRp := Bytes.ofList 227 (user.raw.toList ++ rpIdHash.toList
        ++ (Bytes.ofList 32 stored).toList ++ [UInt8.ofNat stored.length])
      userIdLookup := deriveUserIdLookup P.prims k (user.id.toList.take user.idSize.toNat)
      rkNonce := rkNonce }
  let rk := plain.xcrypt P.prims k
  { rk with rkTag := ctapComputeMac P.prims k rk.macInput }

/-! ## Authenticator data -/

/-- `attestation_read_aaguid`. -/
def aaguid : List UInt8 :=
  [0xdb, 0xe4, 0x2d, 0x66, 0x22, 0xbe, 0x46, 0x24, 0x88, 0x11, 0x97, 0x2a, 0x8e, 0x65, 0x36, 0x7e]

/-- The buffer that `ctap_make_auth_data` fills: the one in `getAssertionState`, or a local one. -/
inductive AuthBuf
  | assertion
  | scratch
  deriving DecidableEq, Repr

/-- Write the header to the buffer. -/
def putHead (buf : AuthBuf) (head : AuthDataHeader) : CtapM Unit :=
  match buf with
  | .assertion => modify fun w => { w with ga := { w.ga with authData := head } }
  | .scratch => pure ()

/-- The flags of a new header: user presence and a PIN that is set. -/
def headerFlags (up : CtapStatus) (pinIsSet : Bool) : UInt8 :=
  (if up = .error .userPresenceDisabled then 0 else 1) ||| (if pinIsSet then 4 else 0)

/-- The first part of `ctap_make_auth_data`: the header and the count in it.  Hash and count are
written before the user presence test. -/
def makeAuthDataHeader (buf : AuthBuf) (rpIdHash : Bytes 32) : CtapM (AuthDataHeader × UInt32) := do
  let head := { (← get).ga.authData with rpIdHash := rpIdHash }
  putHead buf head
  let count ← ctapAuthDataUpdateCount
  let head := { head with signCount := count }
  putHead buf head
  let up ← ctap2UserPresenceTest
  onlyIf (up ≠ .error .userPresenceDisabled) (checkStatus up)
  let head := { head with flags := headerFlags up (clientPinIsSet (← get)) }
  putHead buf head
  pure (head, count)

/-- The protected metadata of a new credential, before encryption. -/
def newMetadata (credInfo : CredInfo) (ext : Extensions) : Bytes 4 :=
  Bytes.ofList 4 [if credInfo.rk then 1 else 0, 0,
    if credInfo.coseAlgorithmIdentifier = some .eddsa then 1 else 0, ext.credProtect]

/-- The resident key part of `ctap_make_auth_data`. -/
def storeResidentKey (rp : RpId) (rpIdHash : Bytes 32) (id : CredentialId) (user : UserEntity) :
    CtapM Unit := do
  failIf (ctapMaxNumberOfRks ≤ (← get).state.rkStored) .keyStoreFull
  let rkNonce ← ctapGenerateRng 16
  ctapOverwriteRk P (makeResidentKey P (← get).keys id user rpIdHash rp.bytes rkNonce)

/-- The second part of `ctap_make_auth_data`: a new credential, as attested credential data. -/
def makeAttestedData (rp : RpId) (rpIdHash : Bytes 32) (rpIdLookup : Bytes 16) (count : UInt32)
    (credInfo : CredInfo) (ext : Extensions) : CtapM (List UInt8) := do
  let k := (← get).keys
  let nonce ← ctapGenerateRng 16
  let metadata := ctapXcryptBuf P.prims k nonce (newMetadata credInfo ext)
  let tag := ctapMakeAuthTag P.prims k 0 rpIdLookup nonce metadata count
  let id := CredentialId.make 0 rpIdLookup nonce metadata count tag
  onlyIf credInfo.rk (storeResidentKey P rp rpIdHash id credInfo.user)
  let coseKey ← coseKeyGenerate P (Encoder.init (310 - 112)) id.raw.toList
    credInfo.publicKeyCredentialType credInfo.coseAlgorithmIdentifier
  pure (aaguid ++ [0, 57] ++ id.raw.toList ++ coseKey.out)

/-- `ctap_make_auth_data`: the header and what follows it. -/
def ctapMakeAuthData (buf : AuthBuf) (rp : RpId) (rpIdHash : Bytes 32) (rpIdLookup : Bytes 16)
    (credInfo : Option CredInfo) (ext : Extensions) : CtapM (AuthDataHeader × List UInt8) := do
  let (head, count) ← makeAuthDataHeader buf rpIdHash
  match credInfo with
  | none => pure (head, [])
  | some credInfo =>
    let attested ← makeAttestedData P rp rpIdHash rpIdLookup count credInfo ext
    pure ({ head with flags := head.flags ||| 0x40 }, attested)

end TkeyFido2
