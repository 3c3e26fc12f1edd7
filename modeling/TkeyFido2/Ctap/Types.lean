import TkeyFido2.Lib.Bytes

/-!
# Data of the authenticator

The structures of `ctap.h`, `state.h` and `ctap_client_pin.c`.  A structure that the code encrypts,
compares or copies as a block of memory is that block, with its fields read at their offsets; all
others are records.
-/

namespace TkeyFido2

/-- The status codes other than `CTAP2_OK`. -/
inductive CtapError
  | invalidCommand
  | invalidParameter
  | invalidLength
  | cborUnexpectedType
  | invalidCbor
  | missingParameter
  | limitExceeded
  | credentialExcluded
  | invalidCredential
  | unsupportedAlgorithm
  | operationDenied
  | keyStoreFull
  | invalidOption
  | noCredentials
  | userActionTimeout
  | notAllowed
  | pinInvalid
  | pinBlocked
  | pinAuthInvalid
  | pinAuthBlocked
  | pinNotSet
  | puatRequired
  | pinPolicyViolation
  | invalidSubcommand
  | unauthorizedPermission
  | userPresenceDisabled
  | other
  /-- A status variable that was never assigned. -/
  | indeterminate (v : UInt8)
  deriving DecidableEq, Repr

/-- A status code. -/
inductive CtapStatus
  | ok
  | error (e : CtapError)
  deriving DecidableEq, Repr

/-! ## Credentials -/

/-- `CTAP_userEntity`, packed. -/
structure UserEntity where
  raw : Bytes 162 := Bytes.zero 162
  deriving DecidableEq

namespace UserEntity

def id (u : UserEntity) : Bytes 64 := u.raw.slice 0 64
def idSize (u : UserEntity) : UInt8 := u.raw.byte 64
def name (u : UserEntity) : Bytes 65 := u.raw.slice 65 65
def displayName (u : UserEntity) : Bytes 32 := u.raw.slice 130 32

def setId (u : UserEntity) (l : List UInt8) : UserEntity := ⟨u.raw.patch 0 l⟩
def setIdSize (u : UserEntity) (n : UInt8) : UserEntity := ⟨u.raw.patch 64 [n]⟩
def setName (u : UserEntity) (l : List UInt8) : UserEntity := ⟨u.raw.patch 65 l⟩
def setDisplayName (u : UserEntity) (l : List UInt8) : UserEntity := ⟨u.raw.patch 130 l⟩

end UserEntity

/-- `CredentialId`, packed; a U2F key handle lies over the same memory. -/
structure CredentialId where
  raw : Bytes 57 := Bytes.zero 57
  deriving DecidableEq

namespace CredentialId

def version (c : CredentialId) : UInt8 := c.raw.byte 0
def rpIdLookup (c : CredentialId) : Bytes 16 := c.raw.slice 1 16
def nonce (c : CredentialId) : Bytes 16 := c.raw.slice 17 16
def protectedMetadata (c : CredentialId) : Bytes 4 := c.raw.slice 33 4
def count (c : CredentialId) : UInt32 := ofLe32 (c.raw.toList.drop 37)
def tag (c : CredentialId) : Bytes 16 := c.raw.slice 41 16

/-- `credential.id.count = n`. -/
def setCount (c : CredentialId) (n : UInt32) : CredentialId := ⟨c.raw.patch 37 (le32 n)⟩

/-- The first 48 bytes as `struct u2f_key_handle`: tag, then key. -/
def u2fTag (c : CredentialId) : Bytes 16 := c.raw.slice 0 16
def u2fKey (c : CredentialId) : Bytes 32 := c.raw.slice 16 32

/-- A credential ID from its fields. -/
def make (version : UInt8) (rpIdLookup nonce : Bytes 16) (metadata : Bytes 4) (count : UInt32)
    (tag : Bytes 16) : CredentialId :=
  ⟨Bytes.ofList 57 ([version] ++ rpIdLookup.toList ++ nonce.toList ++ metadata.toList ++ le32 count
    ++ tag.toList)⟩

section Make

variable (v : UInt8) (l n : Bytes 16) (m : Bytes 4) (c : UInt32) (t : Bytes 16)

theorem toList_make : (make v l n m c t).raw.toList
    = [v] ++ (l.toList ++ (n.toList ++ (m.toList ++ (le32 c ++ t.toList)))) := by
  unfold make
  rw [Bytes.toList_ofList_of_length]
  · simp only [List.append_assoc]
  · simp

@[simp] theorem make_version : (make v l n m c t).version = v := by
  unfold version Bytes.byte
  rw [toList_make]
  rfl

@[simp] theorem make_rpIdLookup : (make v l n m c t).rpIdLookup = l :=
  Bytes.slice_of_append [v] _ (toList_make v l n m c t) rfl

@[simp] theorem make_nonce : (make v l n m c t).nonce = n := by
  refine Bytes.slice_of_append ([v] ++ l.toList) (m.toList ++ (le32 c ++ t.toList)) ?_ (by simp)
  simp only [toList_make, List.append_assoc]

@[simp] theorem make_protectedMetadata : (make v l n m c t).protectedMetadata = m := by
  refine Bytes.slice_of_append ([v] ++ l.toList ++ n.toList) (le32 c ++ t.toList) ?_ (by simp)
  simp only [toList_make, List.append_assoc]

@[simp] theorem make_count : (make v l n m c t).count = c := by
  have h : (make v l n m c t).raw.toList
      = ([v] ++ l.toList ++ n.toList ++ m.toList) ++ (le32 c ++ t.toList) := by
    simp only [toList_make, List.append_assoc]
  unfold count
  rw [h, List.drop_left' (by simp), ofLe32_le32]

@[simp] theorem make_tag : (make v l n m c t).tag = t := by
  refine Bytes.slice_of_append ([v] ++ l.toList ++ n.toList ++ m.toList ++ le32 c) [] ?_ (by simp)
  simp only [toList_make, List.append_assoc, List.append_nil]

end Make

end CredentialId

def u2fKeyHandleSize : Nat := 48

/-- The values of `PublicKeyCredentialType` in use. -/
inductive CredType
  | none
  | pubKey
  | ctap1
  | unknown
  deriving DecidableEq, Repr

structure CredentialDescriptor where
  type : CredType := .none
  id : CredentialId := {}
  user : UserEntity := {}
  deriving DecidableEq

instance : Inhabited CredentialDescriptor := ⟨{}⟩

/-- `CTAP_residentKey`, packed.  `userRp` is `user` followed by `rp`: the part that is encrypted in
place. -/
structure ResidentKey where
  version : UInt8 := 0
  id : CredentialId := {}
  userRp : Bytes 227 := Bytes.zero 227
  userIdLookup : Bytes 16 := Bytes.zero 16
  rkNonce : Bytes 16 := Bytes.zero 16
  rkTag : Bytes 16 := Bytes.zero 16
  deriving DecidableEq

namespace ResidentKey

/-- The `RK_HMAC_SIZE` bytes under `rk_tag`. -/
def macInput (rk : ResidentKey) : List UInt8 :=
  [rk.version] ++ rk.id.raw.toList ++ rk.userRp.toList ++ rk.userIdLookup.toList
    ++ rk.rkNonce.toList

/-- The fields of the user and the RP, once decrypted. -/
def user (rk : ResidentKey) : UserEntity := ⟨rk.userRp.slice 0 162⟩
def rpIdHash (rk : ResidentKey) : Bytes 32 := rk.userRp.slice 162 32
def rpId (rk : ResidentKey) : Bytes 32 := rk.userRp.slice 194 32
def rpIdSize (rk : ResidentKey) : UInt8 := rk.userRp.byte 226

def setUser (rk : ResidentKey) (u : UserEntity) : ResidentKey :=
  { rk with userRp := rk.userRp.patch 0 u.raw.toList }

end ResidentKey

/-! ## COSE keys and extensions -/

structure CoseKey where
  x : Bytes 32 := Bytes.zero 32
  y : Bytes 32 := Bytes.zero 32
  kty : Int := 0
  crv : Int := 0
  deriving DecidableEq

namespace CoseKey

/-- The 64 bytes of the public point. -/
def pubkey (k : CoseKey) : Bytes 64 := Bytes.append k.x k.y

end CoseKey

inductive CoseAlg
  | es256
  | eddsa
  | ecdhEsHkdf256
  deriving DecidableEq, Repr

/-- The COSE algorithm numbers. -/
def CoseAlg.toInt : CoseAlg → Int
  | .es256 => -7
  | .eddsa => -8
  | .ecdhEsHkdf256 => -25

inductive HmacSecretState
  | absent
  | requested
  | parsed
  deriving DecidableEq, Repr

/-- `CTAP_extensions`.  The `credential` pointer of the hmac-secret part is set to the first entry of
the assertion list and to nothing else, so it is not a field. -/
structure Extensions where
  hmacSecretPresent : HmacSecretState := .absent
  saltLen : UInt8 := 0
  saltEnc : Bytes 64 := Bytes.zero 64
  saltAuth : Bytes 32 := Bytes.zero 32
  keyAgreement : CoseKey := {}
  credProtect : UInt8 := 0
  deriving DecidableEq

/-! ## Requests -/

/-- `struct rpId`. -/
structure RpId where
  id : Bytes 254 := Bytes.zero 254
  size : Nat := 0
  deriving DecidableEq

/-- The RP ID itself. -/
def RpId.bytes (rp : RpId) : List UInt8 := rp.id.toList.take rp.size

/-- An option that a request may set: `0xff` in the code where it is absent. -/
inductive UpOption
  | absent
  | no
  | yes
  deriving DecidableEq, Repr

/-! ## Authenticator state -/

/-- `AuthenticatorState`. -/
structure AuthState where
  version : UInt8 := 0
  appVersion : UInt32 := 0
  isPinSet : UInt8 := 0
  remainingTries : Int8 := 0
  pinHashEnc : Bytes 16 := Bytes.zero 16
  pinHashIv : Bytes 16 := Bytes.zero 16
  rkStored : UInt16 := 0
  keySalt : Bytes 64 := Bytes.zero 64
  deriving DecidableEq

/-- `pinUvAuthToken_state_t`. -/
structure TokenState where
  permissionsRpIdHash : Bytes 32 := Bytes.zero 32
  permissionsRpIdPresent : Bool := false
  permissions : UInt8 := 0
  usageTimerStartMs : UInt32 := 0
  usageTimerLastUsedMs : UInt32 := 0
  inUse : Bool := false
  userVerified : Bool := false
  userPresent : Bool := false
  deriving DecidableEq

/-- `pinUvAuthToken_t`. -/
structure PinUvAuthToken where
  privKey : Bytes 32 := Bytes.zero 32
  pubKey : Bytes 64 := Bytes.zero 64
  pubKeyValid : Bool := false
  token : Bytes 32 := Bytes.zero 32
  state : TokenState := {}
  deriving DecidableEq

/-- The two records that `get_pin_protocol_state` chooses from. -/
inductive Slot
  | p1
  | p2
  deriving DecidableEq, Repr

/-- `get_pin_protocol_state`: protocol 1, and every other number. -/
def slotOf (pinProtocol : UInt8) : Slot := if pinProtocol = 1 then .p1 else .p2

/-- `CTAP_authDataHeader`; `signCount` is big-endian in memory. -/
structure AuthDataHeader where
  rpIdHash : Bytes 32 := Bytes.zero 32
  flags : UInt8 := 0
  signCount : UInt32 := 0
  deriving DecidableEq

namespace AuthDataHeader

/-- The 37 bytes in memory. -/
def bytes (h : AuthDataHeader) : List UInt8 := h.rpIdHash.toList ++ [h.flags] ++ be32 h.signCount

end AuthDataHeader

def allowListMaxSize : Nat := 20

/-- The descriptor array of `getAssertionState`. -/
abbrev Creds := List.Vector CredentialDescriptor 20

/-- `getAssertionState`. -/
structure GetAssertionState where
  authData : AuthDataHeader := {}
  /-- `buf.extensions`. -/
  extBuf : Bytes 80 := Bytes.zero 80
  extensions : Extensions := {}
  clientDataHash : Bytes 32 := Bytes.zero 32
  creds : Creds := List.Vector.replicate 20 {}
  lastcmd : UInt8 := 0
  count : UInt32 := 0
  index : UInt32 := 0
  userVerified : UInt8 := 0

end TkeyFido2
