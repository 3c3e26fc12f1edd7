import Mathlib.Algebra.GroupWithZero.Nat
import TkeyFido2.Ctap.MakeCredential

/-!
# authenticatorCredentialManagement

`ctap_credential_management.c`.
-/

namespace TkeyFido2

open Cbor

/-! ## The request -/

/-- `subCommandParams` of `CTAP_credMgmt`. -/
structure SubCommandParams where
  rpIdHash : Bytes 32 := Bytes.zero 32
  rpIdHashPresent : Bool := false
  credentialDescriptor : CredentialDescriptor := {}
  credentialIdPresent : Bool := false
  credentialUserPresent : Bool := false
  deriving DecidableEq

def subCommandParamsCopySize : Nat := 240

/-- `CTAP_credMgmt`; `hashed.subCommand` is always `subCommand`. -/
structure CredMgmt where
  subCommand : UInt8 := 0
  params : SubCommandParams := {}
  paramsCborCopy : Bytes 240 := Bytes.zero 240
  paramsCborSize : Nat := 0
  pinUvAuthParam : AuthParam := {}
  pinProtocol : UInt8 := 0
  deriving DecidableEq

/-- The bytes that the pinUvAuthParam is checked over. -/
def CredMgmt.hashed (CM : CredMgmt) : List UInt8 :=
  CM.subCommand :: CM.paramsCborCopy.toList.take CM.paramsCborSize

/-- The `switch` of `parse_credential_management_subcommandparams`.  The number is `sz`, which keeps
the length of the last rpIdHash; the type of an rpIdHash is not checked. -/
def subCommandParam (s : SubCommandParams × Nat) (key : Int) (it : CborValue) :
    Parse (SubCommandParams × Nat) :=
  if key = 1 then
    let r := copyByteString it s.2
    match r.result with
    | .error (.err .outOfMemory) => reject .limitExceeded
    | .error e => cborCheck (.error e)
    | .ok (sz, _) => pure ({ s.1 with
        rpIdHash := s.1.rpIdHash.patch 0 r.written
        rpIdHashPresent := true }, sz)
  else if key = 2 then do
    let cred ← parseDescriptor s.1.credentialDescriptor it
    pure ({ s.1 with
      credentialDescriptor := cred
      credentialIdPresent := true }, s.2)
  else if key = 3 then do
    let user ← ctapParseUserEntity s.1.credentialDescriptor.user it
    pure ({ s.1 with
      credentialDescriptor := { s.1.credentialDescriptor with user := user }
      credentialUserPresent := true }, s.2)
  else pure s

/-- The input from one byte before `first` up to `last`: `start_byte` and `end_byte`. -/
def rawRange (val first last : CborValue) : List UInt8 :=
  let start := val.rest.drop (val.rest.length - first.rest.length - 1)
  start.take (start.length - last.rest.length)

/-- `parse_credential_management_subcommandparams`. -/
def parseSubCommandParams (CM : CredMgmt) (val : CborValue) : Parse CredMgmt := do
  let (map, len) ← enterMap .invalidCbor val
  let ((params, _), last) ← intMembers .invalidCbor CborValue.getInt subCommandParam len
    (CM.params, 32) map
  let raw := rawRange val map last
  rejectIf (subCommandParamsCopySize < raw.length) .limitExceeded
  pure { CM with
    params := params
    paramsCborCopy := CM.paramsCborCopy.patch 0 raw
    paramsCborSize := raw.length }

/-- The `switch` of `parse_credential_management_request`. -/
def credMgmtMember (CM : CredMgmt) (key : Int) (it : CborValue) : Parse CredMgmt :=
  if key = 1 then do
    let v ← parseUint8 it
    pure { CM with subCommand := v }
  else if key = 2 then parseSubCommandParams CM it
  else if key = 3 then do
    let v ← parseUint8 it
    pure { CM with pinProtocol := v }
  else if key = 4 then do
    let p ← parseNonemptyAuthParam CM.pinUvAuthParam it
    pure { CM with pinUvAuthParam := p }
  else pure CM

/-- `parse_credential_management_request`. -/
def parseCredentialManagementRequest (request : List UInt8) : Parse CredMgmt := do
  let it ← cborCheck (cborParserInit request)
  let (map, len) ← enterMap .invalidCbor it
  let (CM, _) ← intMembers .invalidCbor CborValue.getIntChecked credMgmtMember len {} map
  pure CM

/-! ## Authorisation -/

variable (P : Platform)

/-- `verify_pin_auth_for_credential_management`. -/
def verifyPinAuthForCredentialManagement (CM : CredMgmt) : CtapM Unit := do
  if CM.subCommand = 3 ∨ CM.subCommand = 5 then pure ()
  else
    failIf (CM.pinUvAuthParam.len = 0) .puatRequired
    failIf (CM.pinProtocol ≠ 1 ∧ CM.pinProtocol ≠ 2) .invalidParameter
    clientPinVerifyAuthEx P CM.pinUvAuthParam.param CM.hashed CM.pinProtocol
    let slot := slotOf CM.pinProtocol
    failIf (¬ clientPinVerifyPermissions (← get) slot permissionCm) .pinAuthInvalid
    if CM.subCommand = 2 then
      failIf ((← get).token slot).state.permissionsRpIdPresent .pinAuthInvalid
    else
      failIf (¬ clientPinVerifyPermissionsRpId (← get) slot CM.params.rpIdHash) .pinAuthInvalid

/-! ## Enumeration state -/

def setCm (cm : CredMgmtState) : CtapM Unit := modify fun w => { w with cm := cm }

/-- `clear_state`. -/
def clearState : CtapM Unit := setCm {}

/-- `init_state`. -/
def initState (cmd : UInt8) : CtapM Unit := do
  let now ← millis
  setCm { valid := true, timestamp := now, initCmd := cmd }

def ctapStatefulTimeoutMs : UInt32 := 30000

/-- `check_state`; `false` is a negative result. -/
def checkState (initCmd : UInt8) : CtapM Bool := do
  let cm := (← get).cm
  if !cm.valid then pure false
  else if cm.initCmd ≠ initCmd then do
    clearState
    pure false
  else
    let now ← millis
    if ctapStatefulTimeoutMs < now - cm.timestamp then
      clearState
      pure false
    else
      setCm { cm with timestamp := now }
      pure true

theorem checkState_invalid {w : World} {cmd : UInt8} (h : w.cm.valid = false) :
    checkState cmd w = .ok false w := by
  unfold checkState
  rw [Prog.get_bind]
  simp only [h, Bool.not_false, if_true]
  rfl

/-! ## Scanning the store -/

/-- `resident_key_is_valid`. -/
def residentKeyIsValid (rk : ResidentKey) : Bool := 0 < rk.id.count ∧ rk.id.count ≠ 0xffffffff

/-- A record that `scan_rk` stops at. -/
def scanMatches (rpIdLookup : Bytes 16) (rk : ResidentKey) : Bool :=
  residentKeyIsValid rk && rpIdLookup = rk.id.rpIdLookup

/-- `scan_rk` in the mode `RK_MODE_COUNT`. -/
def scanCount (rpIdLookup : Bytes 16) : CtapM Nat := do
  let w ← get
  let rest := (w.rkFiles (rkFile rpIdLookup)).drop w.cm.rkIdx.toNat
  setCm { w.cm with rkIdx := 0 }
  pure (rest.countP (scanMatches rpIdLookup))

/-- `scan_rk` in the mode `RK_MODE_GET_NEXT`: the next matching record, with its user and RP
decrypted.  The number of records in a file is below 256. -/
def scanNext (rpIdLookup : Bytes 16) : CtapM (Option ResidentKey) := do
  let w ← get
  let rest := (w.rkFiles (rkFile rpIdLookup)).drop w.cm.rkIdx.toNat
  match rest.findIdx? (scanMatches rpIdLookup) with
  | some i =>
    setCm { w.cm with rkIdx := UInt8.ofNat (w.cm.rkIdx.toNat + i + 1) }
    pure ((rest[i]?).map fun rk => rk.xcrypt P.prims w.keys)
  | none =>
    setCm { w.cm with rkIdx := 0 }
    pure none

def maxUniqueRp : Nat := 50

/-- The first bytes of the lookup MAC that `scan_file_unique_rp` compares. -/
def compareKey (rk : ResidentKey) : List UInt8 := rk.id.rpIdLookup.toList.take 8

/-- The loop of `scan_file_unique_rp`: the indices of the first records of the RPs, at most
`maxUniqueRp` of them. -/
def uniqueRpLoop : List ResidentKey → Nat → List (List UInt8) → List UInt8 → List UInt8
  | [], _, _, found => found
  | rk :: l, index, seen, found =>
    if !residentKeyIsValid rk then uniqueRpLoop l (index + 1) seen found
    else if compareKey rk ∈ seen then uniqueRpLoop l (index + 1) seen found
    else if seen.length < maxUniqueRp then
      uniqueRpLoop l (index + 1) (seen ++ [compareKey rk]) (found ++ [UInt8.ofNat index])
    else found

/-- `scan_file_unique_rp`: nothing for a file with more records than the device can hold. -/
def scanFileUniqueRp (file : List ResidentKey) : List UInt8 :=
  if 200 < file.length then [] else uniqueRpLoop file 0 [] []

/-- `get_count_unique_relying_parties` with `scan_files_unique_rp`: the number of RPs; the list of
the first file that has any is kept. -/
def getCountUniqueRelyingParties : CtapM Nat := do
  let w ← get
  let lists := (List.finRange 16).map fun n => (n, scanFileUniqueRp (w.rkFiles n))
  let cm := { w.cm with
    rkIdx := 0
    fileIdx := 0
    lenListUniqueRps := 0 }
  setCm (match lists.find? fun p => p.2 ≠ [] with
    | some (n, l) => { cm with
        fileIdx := UInt8.ofNat n.val
        lenListUniqueRps := UInt8.ofNat l.length
        listUniqueRps := cm.listUniqueRps.patch 0 l }
    | none => cm)
  pure (lists.map fun p => p.2.length).sum

/-- The file with a number below 16. -/
def rkFileNo (w : World) (n : Nat) : List ResidentKey :=
  if h : n < 16 then w.rkFiles ⟨n, h⟩ else []

/-- The `while` loop of `get_next_unique_rp`: on to the next file that has RPs. -/
def nextFileWithRps (w : World) : Nat → CredMgmtState → CredMgmtState
  | 0, cm => cm
  | fuel + 1, cm =>
    if cm.fileIdx.toNat < 16 then
      let l := scanFileUniqueRp (rkFileNo w cm.fileIdx.toNat)
      let cm := { cm with
        lenListUniqueRps := UInt8.ofNat l.length
        listUniqueRps := cm.listUniqueRps.patch 0 l }
      if l = [] then nextFileWithRps w fuel { cm with fileIdx := cm.fileIdx + 1 } else cm
    else cm

/-- `get_next_unique_rp`. -/
def getNextUniqueRp : CtapM (Option ResidentKey) := do
  let w ← get
  let cm := if w.cm.lenListUniqueRps ≤ w.cm.rkIdx then
      nextFileWithRps w 17 { w.cm with
        fileIdx := w.cm.fileIdx + 1
        rkIdx := 0
        lenListUniqueRps := 0 }
    else w.cm
  setCm cm
  if cm.lenListUniqueRps = 0 then pure none
  else
    -- the file name is the high nibble of a byte
    let file := rkFileNo w (cm.fileIdx.toNat % 16)
    if file = [] then pure none
    else
      setCm { cm with rkIdx := cm.rkIdx + 1 }
      let rk := file.getD (cm.listUniqueRps.byte cm.rkIdx.toNat).toNat {}
      pure (some (rk.xcrypt P.prims w.keys))

/-! ## Responses -/

/-- `cbor_encode_credential_metadata`. -/
def cborEncodeCredentialMetadata : CtapM (List UInt8) := do
  let stored := (← get).state.rkStored.toNat
  let map ← encode (responseEncoder.createMap 2)
  let map ← encode (map.int 1)
  let map ← encode (map.int stored)
  let map ← encode (map.int 2)
  -- the subtraction is in 32 unsigned bits
  let map ← encode (map.int ((2 ^ 32 + 200 - stored) % 2 ^ 32))
  let encoder ← encode (responseEncoder.close map)
  pure encoder.out

/-- A total that only the first response of an enumeration has. -/
def encodeTotal (map : Encoder) (key : Int) (total : Nat) : EncM Encoder := do
  if 0 < total then
    let map ← map.int key
    map.int total
  else pure map

/-- `cbor_encode_enumerate_credential`. -/
def cborEncodeEnumerateCredential (rk : ResidentKey) (rkCount : Nat) : CtapM (List UInt8) := do
  let k := (← get).keys
  let level := credProtectOf P.prims k rk.id
  let credProtect := if level = 0 ∨ 3 < level then 1 else level
  let map ← encode (responseEncoder.createMap (if 0 < rkCount then 5 else 4))
  let map ← encode (map.int 6)
  let map ← encode (ctapCborEncodeUserEntity map rk.user true)
  let map ← encode (map.int 7)
  let map ← encode (ctapCborEncodeCredentialDescriptor map { type := .pubKey, id := rk.id })
  let map ← encode (map.int 8)
  let map ← coseKeyGenerate P map rk.id.raw.toList .pubKey
    (some (ctapRestoreMetadataCoseAlg P.prims k rk.id))
  let map ← encode (encodeTotal map 9 rkCount)
  let map ← encode (map.int 10)
  let map ← encode (map.int credProtect.toNat)
  let encoder ← encode (responseEncoder.close map)
  pure encoder.out

/-- `cbor_encode_enumerate_rp`. -/
def cborEncodeEnumerateRp (rk : ResidentKey) (rpCount : Nat) : CtapM (List UInt8) := do
  let map ← encode (responseEncoder.createMap (if 0 < rpCount then 3 else 2))
  let map ← encode (map.int 3)
  let rp ← encode (map.createMap 2)
  let rp ← encode (rp.textString (ascii "id"))
  let rp ← encode (rp.textString
    (if rk.rpIdSize.toNat ≤ 32 then rk.rpId.toList.take rk.rpIdSize.toNat else []))
  let rp ← encode (rp.textString (ascii "name"))
  let rp ← encode (rp.textString (cstr rk.user.name.toList))
  let map ← encode (map.close rp)
  let map ← encode (map.int 4)
  let map ← encode (map.byteString rk.rpIdHash.toList)
  let map ← encode (encodeTotal map 5 rpCount)
  let encoder ← encode (responseEncoder.close map)
  pure encoder.out

/-! ## Sub-commands -/

/-- An enumeration that ends with an error. -/
def endEnumeration {α : Type} (s : CtapError) : CtapM α := do
  clearState
  failWith s

/-- `CM_SubCmd_enumerateRPsBegin`. -/
def enumerateRpsBegin : CtapM (List UInt8) := do
  initState 2
  let count ← getCountUniqueRelyingParties
  onlyIf (count = 0) (endEnumeration .noCredentials)
  match ← getNextUniqueRp P with
  | none => endEnumeration .notAllowed
  | some rk => cborEncodeEnumerateRp rk count

/-- `CM_SubCmd_enumerateRPsGetNextRP`. -/
def enumerateRpsGetNextRp : CtapM (List UInt8) := do
  let valid ← checkState 2
  failIf (valid = false) .notAllowed
  match ← getNextUniqueRp P with
  | none => endEnumeration .notAllowed
  | some rk => cborEncodeEnumerateRp rk 0

/-- `CM_SubCmd_enumerateCredentialsBegin`. -/
def enumerateCredentialsBegin (params : SubCommandParams) : CtapM (List UInt8) := do
  initState 4
  failIf (¬ params.rpIdHashPresent) .missingParameter
  modify fun w => { w with cm := { w.cm with
    rpIdHash := params.rpIdHash
    rkIdx := 0 } }
  let rpIdLookup := rpIdLookupOf P.prims (← get).keys params.rpIdHash
  let count ← scanCount rpIdLookup
  onlyIf (count = 0) (endEnumeration .noCredentials)
  match ← scanNext P rpIdLookup with
  | none => endEnumeration .noCredentials
  | some rk => cborEncodeEnumerateCredential P rk count

/-- `CM_SubCmd_enumerateCredentialsGetNextCredential`. -/
def enumerateCredentialsGetNextCredential : CtapM (List UInt8) := do
  let valid ← checkState 4
  failIf (valid = false) .notAllowed
  let w ← get
  match ← scanNext P (rpIdLookupOf P.prims w.keys w.cm.rpIdHash) with
  | none => endEnumeration .other
  | some rk => cborEncodeEnumerateCredential P rk 0

/-- `CM_SubCmd_deleteCredential`. -/
def deleteCredential (params : SubCommandParams) : CtapM (List UInt8) := do
  failIf (¬ params.credentialIdPresent) .missingParameter
  let deleted ← ctapDeleteRk P params.credentialDescriptor.id
  failIf (deleted = false) .noCredentials
  pure []

/-- The search of `update_credential_user_info`: the loop over the matching records. -/
def findCredential (id : CredentialId) : Nat → CtapM ResidentKey
  | 0 => throw (.halt .loop)
  | fuel + 1 => do
    match ← scanNext P id.rpIdLookup with
    | none => failWith .noCredentials
    | some rk => if id.tag = rk.id.tag then pure rk else findCredential id fuel

/-- The updated record: new names, new nonce, encrypted, new MAC. -/
def updatedRecord (k : SessionKeys) (rk : ResidentKey) (user : UserEntity) (rkNonce : Bytes 16) :
    ResidentKey :=
  let named := (rk.user.setName user.name.toList).setDisplayName user.displayName.toList
  let rk := ({ rk.setUser named with rkNonce := rkNonce } : ResidentKey).xcrypt P.prims k
  { rk with rkTag := ctapComputeMac P.prims k rk.macInput }

/-- `update_credential_user_info`. -/
def updateCredentialUserInfo (id : CredentialId) (user : UserEntity) : CtapM (List UInt8) := do
  clearState
  let w ← get
  let rk ← findCredential P id ((w.rkFiles (rkFile id.rpIdLookup)).length + 1)
  failIf (rk.user.id.toList.take rk.user.idSize.toNat ≠ user.id.toList.take rk.user.idSize.toNat)
    .invalidParameter
  let rkNonce ← ctapGenerateRng 16
  ctapOverwriteRk P (updatedRecord P w.keys rk user rkNonce)
  clearState
  pure []

/-- `CM_SubCmd_updateUserInformation`. -/
def updateUserInformation (params : SubCommandParams) : CtapM (List UInt8) := do
  failIf (¬ params.credentialIdPresent ∨ ¬ params.credentialUserPresent) .missingParameter
  updateCredentialUserInfo P params.credentialDescriptor.id params.credentialDescriptor.user

/-- The `switch` of `ctap_credential_management`. -/
def credMgmtCommand (CM : CredMgmt) : CtapM (List UInt8) :=
  match CM.subCommand.toNat with
  | 1 => cborEncodeCredentialMetadata
  | 2 => enumerateRpsBegin P
  | 3 => enumerateRpsGetNextRp P
  | 4 => enumerateCredentialsBegin P CM.params
  | 5 => enumerateCredentialsGetNextCredential P
  | 6 => deleteCredential P CM.params
  | 7 => updateUserInformation P CM.params
  | _ => failWith .invalidCommand

/-- `ctap_credential_management`. -/
def ctapCredentialManagement (request : List UInt8) : CtapM (List UInt8) := do
  let CM ← ctapCheck (parseCredentialManagementRequest request)
  verifyPinAuthForCredentialManagement P CM
  credMgmtCommand P CM

end TkeyFido2
