import TkeyFido2.Ctap.Device

/-!
# Credentials

The part of `ctap.c`, `u2f.c` and `cose_key.c` that makes, checks and signs with credentials.
-/

namespace TkeyFido2

open Cbor

/-! ## MACs and lookups -/

section Mac

variable (C : Primitives) (k : SessionKeys)

/-- `ctap_compute_mac` for `CREDENTIAL_TAG_SIZE` bytes. -/
def ctapComputeMac (data : List UInt8) : Bytes 16 := (C.hmac k.credMac.toList data).slice 0 16

/-- `ctap_verify_mac`. -/
def ctapVerifyMac (mac : Bytes 16) (data : List UInt8) : Bool := ctapComputeMac C k data = mac

/-- `ctap_make_auth_tag`. -/
def ctapMakeAuthTag (version : UInt8) (rpIdLookup nonce : Bytes 16) (metadata : Bytes 4)
    (count : UInt32) : Bytes 16 :=
  ctapComputeMac C k
    ([version] ++ rpIdLookup.toList ++ nonce.toList ++ metadata.toList ++ le32 count)

/-- `u2f_make_auth_tag`. -/
def u2fMakeAuthTag (key appid : Bytes 32) : Bytes 16 := ctapComputeMac C k (key.toList ++ appid.toList)

/-- `ctap_xcrypt_buf`. -/
def ctapXcryptBuf {n : Nat} (iv : Bytes 16) (buf : Bytes n) : Bytes n := C.aesCtr k.metaEnc iv buf

/-- `derive_user_id_lookup`. -/
def deriveUserIdLookup (id : List UInt8) : Bytes 16 := ctapComputeMac C k id

/-- The lookup MAC of an RP ID hash. -/
def rpIdLookupOf (rpIdHash : Bytes 32) : Bytes 16 := ctapComputeMac C k rpIdHash.toList

/-- `ctap_derive_rp_id_info`: hash and lookup MAC of an RP ID. -/
def ctapDeriveRpIdInfo (rpId : List UInt8) : Bytes 32 × Bytes 16 :=
  (C.sha256 rpId, rpIdLookupOf C k (C.sha256 rpId))

/-- `crypto_derive_credential_key`. -/
def cryptoDeriveCredentialKey (data : List UInt8) : Bytes 32 := C.hmac k.credPriv.toList data

end Mac

/-! ## Checking credentials -/

section Check

variable (C : Primitives) (k : SessionKeys)

/-- The decrypted metadata of a credential. -/
def credentialMetadata (id : CredentialId) : Bytes 4 := ctapXcryptBuf C k id.nonce id.protectedMetadata

/-- The credProtect level in the metadata. -/
def credProtectOf (id : CredentialId) : UInt8 := (credentialMetadata C k id).byte 3

/-- Whether the metadata marks a credential as discoverable. -/
def isRkOf (id : CredentialId) : Bool := (credentialMetadata C k id).byte 0 &&& 1 ≠ 0

/-- `ctap_check_credential_metadata`: whether its result is 0. -/
def ctapCheckCredentialMetadata (id : CredentialId) (isVerified isFromCredidList : Bool) : Bool :=
  match (credProtectOf C k id).toNat with
  | 2 => isFromCredidList || isVerified
  | 3 => isVerified
  | _ => true

/-- `u2f_authenticate_credential` for a key handle of 48 bytes. -/
def u2fAuthenticateCredential (id : CredentialId) (appid : Bytes 32) : Bool :=
  id.u2fTag = u2fMakeAuthTag C k id.u2fKey appid

/-- `ctap_credential_belongs_to_rp`; the tag is made with the lookup MAC of the request, not that of
the credential. -/
def ctapCredentialBelongsToRp (rpIdLookup : Bytes 16) (rpIdHash : Bytes 32)
    (desc : CredentialDescriptor) : Bool :=
  match desc.type with
  | .ctap1 => u2fAuthenticateCredential C k desc.id rpIdHash
  | .pubKey => desc.id.tag = ctapMakeAuthTag C k desc.id.version rpIdLookup desc.id.nonce
      desc.id.protectedMetadata desc.id.count
  | _ => false

/-- `ctap_verify_rk_exists` over the file of the credential. -/
def ctapVerifyRkExists (rkFiles : Fin 16 → List ResidentKey) (id : CredentialId) : Bool :=
  (rkFiles (rkFile id.rpIdLookup)).any fun rk =>
    id.rpIdLookup = rk.id.rpIdLookup ∧ id = rk.id ∧ ctapVerifyMac C k rk.rkTag rk.macInput

/-- `ctap_restore_metadata_cose_alg`. -/
def ctapRestoreMetadataCoseAlg (id : CredentialId) : CoseAlg :=
  if (credentialMetadata C k id).byte 2 = 1 then .eddsa else .es256

/-- The user and RP part of a record, encrypted or decrypted in place. -/
def ResidentKey.xcrypt (rk : ResidentKey) : ResidentKey :=
  { rk with userRp := ctapXcryptBuf C k rk.rkNonce rk.userRp }

end Check

/-- `ctap_get_credential_id_size`. -/
def ctapGetCredentialIdSize (type : CredType) : Nat := if type = .ctap1 then u2fKeyHandleSize else 57

/-- The bytes of a credential ID that the protocol sees. -/
def CredentialDescriptor.idBytes (cred : CredentialDescriptor) : List UInt8 :=
  cred.id.raw.toList.take (ctapGetCredentialIdSize cred.type)

/-! ## Encoding -/

/-- `cose_key_add`. -/
def coseKeyAdd (coseKey : Encoder) (x y : Bytes 32) (algtype : CoseAlg) : EncM Encoder := do
  let eddsa : Bool := algtype = .eddsa
  let map ← coseKey.createMap (if eddsa then 4 else 5)
  let map ← map.int 1
  let map ← map.int (if eddsa then 1 else 2)
  let map ← map.int 3
  let map ← map.int algtype.toInt
  let map ← map.int (-1)
  let map ← map.int (if eddsa then 6 else 1)
  let map ← map.int (-2)
  let map ← map.byteString x.toList
  let map ← if eddsa then pure map else do
    let map ← map.int (-3)
    map.byteString y.toList
  coseKey.close map

/-- `ctap_cbor_encode_credential_descriptor`. -/
def ctapCborEncodeCredentialDescriptor (map : Encoder) (cred : CredentialDescriptor) :
    EncM Encoder := do
  let desc ← map.createMap 2
  let desc ← desc.textString (ascii "id")
  let desc ← desc.byteString cred.idBytes
  let desc ← desc.textString (ascii "type")
  let desc ← desc.textString (ascii "public-key")
  map.close desc

/-- A string up to its zero byte. -/
def cstr (l : List UInt8) : List UInt8 := l.takeWhile (· ≠ 0)

/-- `ctap_cbor_encode_user_entity`. -/
def ctapCborEncodeUserEntity (map : Encoder) (user : UserEntity) (isVerified : Bool) :
    EncM Encoder := do
  let dispname : Bool := user.name.byte 0 ≠ 0 ∧ isVerified
  let entity ← map.createMap (if dispname then 3 else 1)
  let entity ← entity.textString (ascii "id")
  let entity ← entity.byteString (user.id.toList.take user.idSize.toNat)
  let entity ← if dispname then do
      let entity ← entity.textString (ascii "name")
      let entity ← entity.textString (cstr user.name.toList)
      let entity ← entity.textString (ascii "displayName")
      entity.textString (cstr user.displayName.toList)
    else pure entity
  map.close entity

/-- `ctap_encode_der_sig`. -/
def ctapEncodeDerSig (sig : Bytes 64) : List UInt8 :=
  let r := sig.toList.take 32
  let s := sig.toList.drop 32
  let leadR := (r.takeWhile (· = 0)).length
  let leadS := (s.takeWhile (· = 0)).length
  let padS := if sig.byte (32 + leadS) &&& 0x80 = 0x80 then 1 else 0
  let padR := if sig.byte leadR &&& 0x80 = 0x80 then 1 else 0
  let der := (((((Bytes.zero 72).patch 0 [0x30]).patch 1
    [UInt8.ofNat (0x44 + padS + padR - leadS - leadR)]).patch 2 [0x02]).patch (3 + padR) [0]).patch 3
    [UInt8.ofNat (0x20 + padR - leadR)]
  let der := (der.patch (4 + padR) (sig.toList.drop leadR |>.take (32 - leadR))).patch
    (36 + padR - leadR) [0x02]
  let der := (der.patch (37 + padR + padS - leadR) [0]).patch (37 + padR - leadR)
    [UInt8.ofNat (0x20 + padS - leadS)]
  let der := der.patch (38 + padR + padS - leadR) (s.drop leadS)
  der.toList.take (0x46 + padS + padR - leadR - leadS)

/-! ## Keys and signatures -/

variable (P : Platform)

/-- `crypto_ecc256_derive_public_key`: a key outside the group order leaves the buffer zero. -/
def cryptoEcc256DerivePublicKey (data : List UInt8) : CtapM (Bytes 64) := do
  let privkey := cryptoDeriveCredentialKey P.prims (← get).keys data
  let pubkey ← drawing (P.prims.eccPublicKey privkey)
  pure (pubkey.getD (Bytes.zero 64))

/-- `cose_key_generate`.  Its callers ignore the result: an error leaves the encoder as it was. -/
def coseKeyGenerate (coseKey : Encoder) (hmacInput : List UInt8) (credtype : CredType)
    (algtype : Option CoseAlg) : CtapM Encoder := do
  if credtype ≠ .pubKey then pure coseKey
  else match algtype with
    | some .es256 =>
      let pub ← cryptoEcc256DerivePublicKey P hmacInput
      pure ((coseKeyAdd coseKey (pub.slice 0 32) (pub.slice 32 32) .es256).toOption.getD coseKey)
    | some .eddsa =>
      let x := P.prims.ed25519PublicKey (cryptoDeriveCredentialKey P.prims (← get).keys hmacInput)
      pure ((coseKeyAdd coseKey x (Bytes.zero 32) .eddsa).toOption.getD coseKey)
    | _ => pure coseKey

/-- `ctap_sign_data` with the loaded private key. -/
def ctapSignData (key : Bytes 32) (data : List UInt8) (clientDataHash : Bytes 32) (alg : CoseAlg) :
    CtapM (List UInt8) := do
  if alg = .eddsa then
    if 512 < data.length then pure (Bytes.zero 64).toList
    else
      let sig := (P.prims.ed25519Sign key (data ++ clientDataHash.toList)).toList
      emit (.signature .eddsa key sig)
      pure sig
  else
    match ← drawing (P.prims.eccSign key (P.prims.sha256 (data ++ clientDataHash.toList))) with
    | some sig =>
      emit (.signature .es256 key (ctapEncodeDerSig sig))
      pure (ctapEncodeDerSig sig)
    | none => throw (.halt .exit)

/-- `ctap2_user_presence_test`. -/
def ctap2UserPresenceTest : CtapM CtapStatus := do
  match ← ctapUserPresenceTest with
  | .disabled => pure (.error .userPresenceDisabled)
  | .present => pure .ok
  | .absent => pure (.error .operationDenied)

/-- A user presence test whose failure ends the request. -/
def requireUserPresence : CtapM Unit := do
  let r ← ctap2UserPresenceTest
  checkStatus r

/-- `ctap_client_pin_is_set`. -/
def clientPinIsSet (w : World) : Bool := w.state.isPinSet = 1

/-- `ctap_auth_data_update_count`: the new count. -/
def ctapAuthDataUpdateCount : CtapM UInt32 := do
  let count ← ctapAtomicCount 0
  -- count 0 indicates an invalid token
  if count = 0 then ctapAtomicCount 0 else pure count

end TkeyFido2
