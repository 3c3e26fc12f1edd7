import TkeyFido2.Ctap.Parse

/-!
# authenticatorClientPIN

`ctap_client_pin.c`: the two PIN/UV auth protocols, the token records and the PIN.
-/

namespace TkeyFido2

open Cbor

/-! ## The request -/

/-- `CTAP_clientPin`. -/
structure ClientPin where
  pinProtocol : UInt8 := 0
  subCommand : Int := 0
  keyAgreement : CoseKey := {}
  keyAgreementPresent : Bool := false
  pinUvAuthParam : AuthParam := {}
  newPinEnc : Bytes 80 := Bytes.zero 80
  newPinEncSize : UInt8 := 0
  pinHashEnc : Bytes 32 := Bytes.zero 32
  pinHashEncPresent : Bool := false
  permissions : UInt8 := 0
  permissionsPresent : Bool := false
  rpId : RpId := {}
  deriving DecidableEq

/-- A pinUvAuthParam where an empty one is an error. -/
def parseNonemptyAuthParam (p : AuthParam) (it : CborValue) : Parse AuthParam := do
  let p ← ctapParsePinUvAuthParam { p with empty := false } it
  rejectIf p.empty .invalidLength
  pure p

/-- The `switch` of `parse_client_pin_request`. -/
def clientPinMember (CP : ClientPin) (key : Int) (it : CborValue) : Parse ClientPin :=
  if key = 1 then do
    let v ← parseUint8 it
    pure { CP with pinProtocol := v }
  else if key = 2 then do
    let v ← parseCoseInt it
    pure { CP with subCommand := v }
  else if key = 3 then do
    let k ← coseKeyParse CP.keyAgreement it
    pure { CP with keyAgreement := k, keyAgreementPresent := true }
  else if key = 4 then do
    let p ← parseNonemptyAuthParam CP.pinUvAuthParam it
    pure { CP with pinUvAuthParam := p }
  else if key = 5 then do
    rejectIf (it.type ≠ .byteString) .invalidCbor
    let sz ← cborCheck (calculateStringLength it)
    rejectIf (80 < sz ∨ sz < 64) .pinPolicyViolation
    let r := copyByteString it 80
    let _ ← cborCheck r.result
    pure { CP with newPinEncSize := UInt8.ofNat sz, newPinEnc := CP.newPinEnc.patch 0 r.written }
  else if key = 6 then do
    rejectIf (it.type ≠ .byteString) .invalidCbor
    let r := copyByteString it 32
    let _ ← cborCheck r.result
    pure { CP with pinHashEnc := CP.pinHashEnc.patch 0 r.written, pinHashEncPresent := true }
  else if key = 9 then do
    let perm ← parseCoseInt it
    pure { CP with permissions := UInt8.ofNat (perm % 256).toNat, permissionsPresent := true }
  else if key = 10 then do
    let rp ← ctapParseRpId CP.rpId it
    pure { CP with rpId := rp }
  else pure CP

/-- `parse_client_pin_request`. -/
def parseClientPinRequest (request : List UInt8) : Parse ClientPin := do
  let it ← cborCheck (cborParserInit request)
  let (map, len) ← enterMap .invalidCbor it
  let (CP, _) ← intMembers .invalidCbor CborValue.getIntChecked clientPinMember len {} map
  pure CP

/-! ## Locks -/

/-- `ctap_client_pin_is_boot_locked`. -/
def clientPinIsBootLocked (w : World) : Bool := w.pinBootAttemptsLeft ≤ 0

/-- `ctap_client_pin_is_locked`. -/
def clientPinIsLocked (w : World) : Bool := w.state.remainingTries ≤ 0

/-- `leftover_pin_attempts`. -/
def leftoverPinAttempts (w : World) : Nat := w.state.remainingTries.toInt.toNat

variable (P : Platform)

/-- `lock_device_permanently`. -/
def lockDevicePermanently : CtapM Unit := do
  modify fun w => { w with
    token := fun s => { w.token s with token := Bytes.zero 32 }
    state := { w.state with
      pinHashEnc := Bytes.zero 16
      pinHashIv := Bytes.zero 16 } }
  authenticatorWriteState P

/-- `decrement_pin_attempts`. -/
def decrementPinAttempts : CtapM Unit := do
  modify fun w => if 0 < w.pinBootAttemptsLeft then
    { w with pinBootAttemptsLeft := w.pinBootAttemptsLeft - 1 } else w
  if !clientPinIsLocked (← get) then
    modify fun w => { w with
      state := { w.state with remainingTries := w.state.remainingTries - 1 } }
    authenticatorWriteState P
    if clientPinIsLocked (← get) then
      lockDevicePermanently P

/-- `reset_pin_attempts`. -/
def resetPinAttempts : CtapM Unit := do
  if (← get).state.remainingTries ≠ pinLockoutAttempts then
    modify fun w => { w with
      pinBootAttemptsLeft := pinBootAttempts
      state := { w.state with remainingTries := pinLockoutAttempts } }
    authenticatorWriteState P

/-! ## The protocols -/

/-- `auth_param_size`. -/
def authParamSize (pinProtocol : UInt8) : Nat := if pinProtocol = 2 then 32 else 16

/-- `kdf`: encryption key and MAC key. -/
def kdf (C : Primitives) (ikm : Bytes 32) (pinProtocol : UInt8) : Bytes 32 × Bytes 32 :=
  if pinProtocol = 1 then (C.sha256 ikm.toList, C.sha256 ikm.toList)
  else
    let prk := C.hkdfExtract [] ikm.toList
    (C.hkdfExpand32 prk (ascii "CTAP2 AES key"), C.hkdfExpand32 prk (ascii "CTAP2 HMAC key"))

/-- `ecdh`, called by `ctap_client_pin_decapsulate`. -/
def ecdh (platformPubkey : Bytes 64) (pinProtocol : UInt8) : CtapM (Bytes 32 × Bytes 32) := do
  let priv := ((← get).token (slotOf pinProtocol)).privKey
  match ← drawing (P.prims.eccSharedSecret platformPubkey priv) with
  | some point => pure (kdf P.prims point pinProtocol)
  | none => throw (.halt .exit)

/-- `ctap_client_pin_verify`. -/
def clientPinVerify (C : Primitives) (key : Bytes 32) (message : List UInt8) (signature : Bytes 32)
    (pinProtocol : UInt8) : Bool :=
  signature.toList.take (authParamSize pinProtocol)
    = (C.hmac key.toList message).toList.take (authParamSize pinProtocol)

/-- `decrypt` of the first `len` bytes of a buffer. -/
def decrypt (C : Primitives) {n : Nat} (buf : Bytes n) (len : Nat) (encKey : Bytes 32)
    (pinProtocol : UInt8) : Parse (Bytes n) :=
  if pinProtocol = 1 then
    pure (buf.patch 0 (C.aesCbcDecrypt encKey (Bytes.zero 16) (buf.slice 0 len)).toList)
  else if len ≤ 16 then .error (.halt .assert)
  else
    let plain := C.aesCbcDecrypt encKey (buf.slice 0 16) (buf.slice 16 (len - 16))
    pure (buf.patch 0 (plain.toList ++ List.replicate 16 0))

/-- `encrypt_pinUvAuthToken`. -/
def encryptPinUvAuthToken (encKey : Bytes 32) (pinProtocol : UInt8) : CtapM (List UInt8) := do
  let token := ((← get).token (slotOf pinProtocol)).token
  if pinProtocol = 1 then
    pure (P.prims.aesCbcEncrypt encKey (Bytes.zero 16) token).toList
  else
    let iv ← ctapGenerateRng 16
    pure (iv.toList ++ (P.prims.aesCbcEncrypt encKey iv token).toList)

/-- Draw keys until one is a valid scalar. -/
def drawScalar : Nat → CtapM (Bytes 32)
  | 0 => throw (.halt .loop)
  | fuel + 1 => do
    let k ← ctapGenerateRng 32
    if isValidScalar k then pure k else drawScalar fuel

/-- `regenerate_key_agreement`. -/
def regenerateKeyAgreement (slot : Slot) : CtapM Unit := do
  let k ← drawScalar ((← get).inputs.rng.tries + 1)
  modify fun w => w.setToken slot { w.token slot with
    privKey := k
    pubKeyValid := false }

/-- `reset_pinUvAuthToken`. -/
def resetPinUvAuthToken (slot : Slot) : CtapM Unit := do
  let token ← ctapGenerateRng 32
  modify fun w => w.setToken slot { w.token slot with
    token := token
    state := {} }

/-- `ctap_client_pin_initialize`. -/
def clientPinInitialize : CtapM Unit := do
  regenerateKeyAgreement .p1
  regenerateKeyAgreement .p2
  resetPinUvAuthToken .p1
  resetPinUvAuthToken .p2

/-! ## Token state -/

/-- `begin_using_pinUvAuthToken`. -/
def beginUsingPinUvAuthToken (userIsPresent : Bool) (slot : Slot) (permissions : UInt8) :
    CtapM Unit := do
  let now ← millis
  modify fun w => w.modifyTokenState slot fun s => { s with
    userPresent := userIsPresent
    permissions := permissions
    userVerified := true
    inUse := true
    usageTimerStartMs := now
    usageTimerLastUsedMs := now }
  emit (.tokenStarted slot now)

/-- `associate_permissions_rp_id`. -/
def associatePermissionsRpId (rpId : List UInt8) (slot : Slot) : CtapM Unit :=
  if rpId.length = 0 then pure ()
  else modify fun w => w.modifyTokenState slot fun s => { s with
    permissionsRpIdHash := P.prims.sha256 rpId
    permissionsRpIdPresent := true }

/-- `ctap_client_pin_clear_user_present`, `_clear_user_verified` and
`_clear_PinUvAuthToken_permissions_except_Lbw`: a change to a token that is in use. -/
def clearInUse (slot : Slot) (f : TokenState → TokenState) : CtapM Unit :=
  modify fun w => if (w.token slot).state.inUse then w.modifyTokenState slot f else w

def clientPinClearUserPresent (slot : Slot) : CtapM Unit :=
  clearInUse slot fun s => { s with userPresent := false }

def clientPinClearUserVerified (slot : Slot) : CtapM Unit :=
  clearInUse slot fun s => { s with userVerified := false }

def clientPinClearPermissionsExceptLbw (slot : Slot) : CtapM Unit :=
  clearInUse slot fun s => { s with permissions := s.permissions &&& 0x10 }

/-- `stop_using_pinUvAuthToken`. -/
def stopUsingPinUvAuthToken (slot : Slot) : CtapM Unit :=
  modify fun w => w.modifyTokenState slot fun _ => {}

def tokenMaxUsagePeriodMs : UInt32 := 10 * 60 * 1000
def tokenMaxUserPresentMs : UInt32 := 30 * 1000

/-- `pinUvAuthToken_usage_time_observer`. -/
def usageTimeObserver (slot : Slot) : CtapM Unit := do
  if ((← get).token slot).state.inUse then
    let now ← millis
    emit (.tokenObserved slot (some now))
    onlyIf (tokenMaxUsagePeriodMs < now - ((← get).token slot).state.usageTimerStartMs)
      (stopUsingPinUvAuthToken slot)
    onlyIf (tokenMaxUserPresentMs < now - ((← get).token slot).state.usageTimerStartMs)
      (clientPinClearUserPresent slot)
    if tokenMaxUserPresentMs < now - ((← get).token slot).state.usageTimerLastUsedMs then
      stopUsingPinUvAuthToken slot
    else
      modify fun w => w.modifyTokenState slot fun s => { s with usageTimerLastUsedMs := now }
  else emit (.tokenObserved slot none)

/-- `ctap_client_pin_get_user_verified`. -/
def clientPinGetUserVerified (w : World) (slot : Slot) : Bool :=
  (w.token slot).state.inUse && (w.token slot).state.userVerified

/-- `ctap_client_pin_verify_permissions`. -/
def clientPinVerifyPermissions (w : World) (slot : Slot) (requested : UInt8) : Bool :=
  (w.token slot).state.permissions &&& requested ≠ 0

/-- `ctap_client_pin_verify_permissions_rp_id`. -/
def clientPinVerifyPermissionsRpId (w : World) (slot : Slot) (rpIdHash : Bytes 32) : Bool :=
  !(w.token slot).state.permissionsRpIdPresent || (w.token slot).state.permissionsRpIdHash = rpIdHash

/-- `ctap_client_pin_verify_auth_ex`. -/
def clientPinVerifyAuthEx (param : Bytes 32) (buf : List UInt8) (pinProtocol : UInt8) :
    CtapM Unit := do
  let slot := slotOf pinProtocol
  usageTimeObserver slot
  failIf (¬ ((← get).token slot).state.inUse) .pinAuthInvalid
  let token := ((← get).token slot).token
  failIf (¬ clientPinVerify P.prims token buf param pinProtocol) .pinAuthInvalid
  emit (.tokenVerified slot token buf (param.toList.take (authParamSize pinProtocol)))

/-- `ctap_client_pin_verify_auth`. -/
def clientPinVerifyAuth (param clientDataHash : Bytes 32) (pinProtocol : UInt8) : CtapM Unit :=
  clientPinVerifyAuthEx P param clientDataHash.toList pinProtocol

/-! ## The PIN -/

/-- `verify_against_stored_pin`. -/
def verifyAgainstStoredPin (pinHash : Bytes 16) : CtapM Bool := do
  let s := (← get).state
  let matched : Bool := pinHash = P.prims.aesCbcDecrypt P.keyPinEnc s.pinHashIv s.pinHashEnc
  emit (.pinCompared matched)
  pure matched

/-- A PIN that does not match: the branch of `add_enc_pinUvAuthToken` and of
`update_pin_if_verified`. -/
def pinMismatch {α : Type} (pinProtocol : UInt8) : CtapM α := do
  regenerateKeyAgreement (slotOf pinProtocol)
  decrementPinAttempts P
  failIf (clientPinIsLocked (← get)) .pinBlocked
  failIf (clientPinIsBootLocked (← get)) .pinAuthBlocked
  failWith .pinInvalid

/-- `store_pin`. -/
def storePin (pin : List UInt8) : CtapM Unit := do
  let iv ← ctapGenerateRng 16
  let hash := (P.prims.sha256 pin).slice 0 16
  modify fun w => { w with
    state := { w.state with
      pinHashIv := iv
      pinHashEnc := P.prims.aesCbcEncrypt P.keyPinEnc iv hash
      isPinSet := 1 } }
  authenticatorWriteState P

/-- `trailing_zeros`. -/
def trailingZeros {n : Nat} (buf : Bytes n) : Nat → Nat
  | 0 => 0
  | i + 1 => if buf.byte (i + 1) = 0 then trailingZeros buf i + 1 else 0

/-- The comparison of the current PIN in `update_pin_if_verified`. -/
def verifyCurrentPin (pinHashEnc encKey : Bytes 32) (pinProtocol : UInt8) : CtapM Unit := do
  let pinHash ← ctapCheck (decrypt P.prims pinHashEnc (authParamSize pinProtocol) encKey pinProtocol)
  if ← verifyAgainstStoredPin P (pinHash.slice 0 16) then
    resetPinAttempts P
    resetPinUvAuthToken .p1
    resetPinUvAuthToken .p2
  else pinMismatch P pinProtocol

/-- The comparison takes place where a PIN is set and a current PIN was given. -/
def verifyCurrentPinIfSet (pinHashEnc : Option (Bytes 32)) (encKey : Bytes 32) (pinProtocol : UInt8) :
    CtapM Unit := do
  match pinHashEnc with
  | some h => onlyIf (clientPinIsSet (← get)) (verifyCurrentPin P h encKey pinProtocol)
  | none => pure ()

/-- The current PIN as part of the message under the pinUvAuthParam. -/
def pinHashPart (pinHashEnc : Option (Bytes 32)) (pinProtocol : UInt8) : List UInt8 :=
  match pinHashEnc with
  | some h => h.toList.take (authParamSize pinProtocol)
  | none => []

/-- `update_pin_if_verified`. -/
def updatePinIfVerified (newPinEnc : Bytes 80) (newPinEncLen : UInt8) (platformPubkey : Bytes 64)
    (pinUvAuthParam : Bytes 32) (pinHashEnc : Option (Bytes 32)) (pinProtocol : UInt8) :
    CtapM Unit := do
  failIf (newPinEncLen < 64) .invalidParameter
  let (encKey, macKey) ← ecdh P platformPubkey pinProtocol
  failIf (¬ clientPinVerify P.prims macKey
    (newPinEnc.toList.take newPinEncLen.toNat ++ pinHashPart pinHashEnc pinProtocol)
    pinUvAuthParam pinProtocol) .pinAuthInvalid
  -- round up to a multiple of the AES block size
  let decLen := (newPinEncLen.toNat + 15) / 16 * 16
  let newPin ← ctapCheck (decrypt P.prims newPinEnc decLen encKey pinProtocol)
  let newPinLen := 64 - trailingZeros newPin 63
  failIf (newPinLen < 4 ∨ 64 ≤ newPinLen) .pinPolicyViolation
  verifyCurrentPinIfSet P pinHashEnc encKey pinProtocol
  storePin P (newPin.toList.take newPinLen)

/-- `add_enc_pinUvAuthToken`. -/
def addEncPinUvAuthToken (platformPubkey : Bytes 64) (pinHashEnc : Bytes 32) (pinProtocol : UInt8)
    (permissions : UInt8) (rpId : List UInt8) : CtapM (List UInt8) := do
  let (encKey, _) ← ecdh P platformPubkey pinProtocol
  let pinHash ← ctapCheck (decrypt P.prims pinHashEnc (authParamSize pinProtocol) encKey pinProtocol)
  if ← verifyAgainstStoredPin P (pinHash.slice 0 16) then
    resetPinAttempts P
    resetPinUvAuthToken .p1
    resetPinUvAuthToken .p2
    beginUsingPinUvAuthToken false (slotOf pinProtocol) permissions
    associatePermissionsRpId P rpId (slotOf pinProtocol)
    emit (.tokenIssued (slotOf pinProtocol) ((← get).token (slotOf pinProtocol)).token permissions
      (if rpId.length = 0 then none else some rpId))
    encryptPinUvAuthToken P encKey pinProtocol
  else pinMismatch P pinProtocol

/-! ## Sub-commands -/

/-- `CTAP_RESPONSE_BUFFER_SIZE`. -/
def responseEncoder : Encoder := Encoder.init 1200

/-- An encoder call in a command. -/
def encode {α : Type} (x : EncM α) : CtapM α := ctapCheck (encCheck x)

/-- `CP_SubCmd_getPINRetries`. -/
def getPinRetries : CtapM (List UInt8) := do
  let w ← get
  let map ← encode (responseEncoder.createMap 2)
  let map ← encode (map.int 3)
  let map ← encode (map.uint (leftoverPinAttempts w))
  let map ← encode (map.int 4)
  let map ← encode (map.boolean (clientPinIsBootLocked w && !clientPinIsLocked w))
  let encoder ← encode (responseEncoder.close map)
  pure encoder.out

/-- The public key of a record, computed when it is first asked for. -/
def computePublicKey (slot : Slot) : CtapM Unit := do
  let pub ← drawing (P.prims.eccPublicKey ((← get).token slot).privKey)
  modify fun w => w.setToken slot { w.token slot with
    pubKey := pub.getD (w.token slot).pubKey
    pubKeyValid := true }

/-- `CP_SubCmd_getKeyAgreement`. -/
def getKeyAgreement (pinProtocol : UInt8) : CtapM (List UInt8) := do
  let slot := slotOf pinProtocol
  let map ← encode (responseEncoder.createMap 1)
  let map ← encode (map.int 1)
  onlyIf (((← get).token slot).pubKeyValid = false) (computePublicKey P slot)
  let pub := ((← get).token slot).pubKey
  let map ← encode (coseKeyAdd map (pub.slice 0 32) (pub.slice 32 32) .ecdhEsHkdf256)
  let encoder ← encode (responseEncoder.close map)
  pure encoder.out

/-- The response of the two sub-commands that issue a token. -/
def issueToken (CP : ClientPin) (permissions : UInt8) (rpId : List UInt8) : CtapM (List UInt8) := do
  let map ← encode (responseEncoder.createMap 1)
  let map ← encode (map.int 2)
  let pinTokenEnc ← addEncPinUvAuthToken P CP.keyAgreement.pubkey CP.pinHashEnc CP.pinProtocol
    permissions rpId
  let map ← encode (map.byteString pinTokenEnc)
  let encoder ← encode (responseEncoder.close map)
  pure encoder.out

/-- `CP_SubCmd_setPIN`. -/
def setPin (CP : ClientPin) : CtapM (List UInt8) := do
  failIf (CP.newPinEncSize = 0 ∨ CP.pinUvAuthParam.len = 0 ∨ ¬ CP.keyAgreementPresent)
    .missingParameter
  failIf (clientPinIsSet (← get)) .pinAuthInvalid
  updatePinIfVerified P CP.newPinEnc CP.newPinEncSize CP.keyAgreement.pubkey CP.pinUvAuthParam.param
    none CP.pinProtocol
  pure []

/-- `CP_SubCmd_changePIN`. -/
def changePin (CP : ClientPin) : CtapM (List UInt8) := do
  failIf (¬ clientPinIsSet (← get)) .pinNotSet
  failIf (CP.newPinEncSize = 0 ∨ CP.pinUvAuthParam.len = 0 ∨ ¬ CP.keyAgreementPresent
    ∨ ¬ CP.pinHashEncPresent) .missingParameter
  updatePinIfVerified P CP.newPinEnc CP.newPinEncSize CP.keyAgreement.pubkey CP.pinUvAuthParam.param
    (some CP.pinHashEnc) CP.pinProtocol
  pure []

def permissionMc : UInt8 := 0x01
def permissionGa : UInt8 := 0x02
def permissionCm : UInt8 := 0x04
def permissionsDefinedMask : UInt8 := 0x3f
def permissionsDefaultMask : UInt8 := permissionMc ||| permissionGa
def permissionsUnsupportedMask : UInt8 := 0x08 ||| 0x10 ||| 0x20

/-- `CP_SubCmd_getPinToken`. -/
def getPinToken (CP : ClientPin) : CtapM (List UInt8) := do
  failIf (¬ clientPinIsSet (← get)) .pinNotSet
  failIf (¬ CP.keyAgreementPresent ∨ ¬ CP.pinHashEncPresent) .missingParameter
  failIf (CP.permissionsPresent ∨ CP.permissions ≠ 0 ∨ 0 < CP.rpId.size) .invalidParameter
  issueToken P CP permissionsDefaultMask []

/-- `CP_SubCmd_getPinUvAuthTokenUsingPinWithPermissions`. -/
def getPinUvAuthTokenUsingPinWithPermissions (CP : ClientPin) : CtapM (List UInt8) := do
  failIf (¬ clientPinIsSet (← get)) .pinNotSet
  failIf (¬ CP.keyAgreementPresent ∨ ¬ CP.pinHashEncPresent) .missingParameter
  failIf (¬ CP.permissionsPresent ∨ CP.permissions = 0) .missingParameter
  let permissions := CP.permissions &&& permissionsDefinedMask
  failIf (permissions &&& permissionsUnsupportedMask ≠ 0) .unauthorizedPermission
  failIf (permissions &&& (permissionMc ||| permissionGa) ≠ 0 ∧ CP.rpId.size = 0) .missingParameter
  issueToken P CP permissions CP.rpId.bytes

/-- `ctap_client_pin`. -/
def ctapClientPin (request : List UInt8) : CtapM (List UInt8) := do
  let CP ← ctapCheck (parseClientPinRequest request)
  failIf (CP.subCommand ≠ 1 ∧ CP.pinProtocol = 0) .missingParameter
  failIf (CP.subCommand ≠ 1 ∧ CP.pinProtocol ≠ 1 ∧ CP.pinProtocol ≠ 2) .invalidParameter
  -- sub-commands that do not check for lock out
  if CP.subCommand = 1 then getPinRetries
  else if CP.subCommand = 2 then getKeyAgreement P CP.pinProtocol
  else if CP.subCommand = 3 then setPin P CP
  else do
    failIf (clientPinIsLocked (← get)) .pinBlocked
    failIf (clientPinIsBootLocked (← get)) .pinAuthBlocked
    if CP.subCommand = 4 then changePin P CP
    else if CP.subCommand = 5 then getPinToken P CP
    else if CP.subCommand = 9 then getPinUvAuthTokenUsingPinWithPermissions P CP
    else failWith .invalidSubcommand

end TkeyFido2
