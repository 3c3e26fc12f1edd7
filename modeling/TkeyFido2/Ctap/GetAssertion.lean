import TkeyFido2.Ctap.AuthData

/-!
# authenticatorGetAssertion and authenticatorGetNextAssertion

`ctap_get_assertion.c` and `ctap_get_next_assertion.c`.  The array of credentials lies in
`getAssertionState`: a request that fails leaves what it has written there.
-/

namespace TkeyFido2

open Cbor

namespace Creds

/-- `creds[i]`. -/
def nth (creds : Creds) (i : Nat) : CredentialDescriptor := creds.toList.getD i {}

/-- `creds[i] = c`. -/
def put (creds : Creds) (i : Nat) (c : CredentialDescriptor) : Creds := ⟨creds.toList.set i c, by simp⟩

/-- `memmove(creds, creds + 1, count)`, in entries. -/
def moveDown (creds : Creds) (count : Nat) : Creds :=
  ⟨(List.range 20).map fun i => if i < count then creds.nth (i + 1) else creds.nth i, by simp⟩

end Creds

/-! ## The request -/

/-- `CTAP_getAssertion`; `creds` is the array of `getAssertionState`. -/
structure GetAssertion where
  clientDataHash : Bytes 32 := Bytes.zero 32
  clientDataHashPresent : Bool := false
  rp : RpId := {}
  credLen : Nat := 0
  options : Options := { up := .absent }
  pinUvAuthParam : AuthParam := {}
  pinProtocol : UInt8 := 0
  extensions : Extensions := {}
  deriving DecidableEq

def setCreds (creds : Creds) : CtapM Unit := modify fun w => { w with ga := { w.ga with creds := creds } }

/-- Parse a descriptor in place. -/
def parseDescriptorAt (i : Nat) (arr : CborValue) : CtapM Unit := do
  let creds := (← get).ga.creds
  match ctapParsePubkeyCredentialDescriptor arr {} with
  | .ok _ cred => setCreds (creds.put i cred)
  | .error e cred => do
    setCreds (creds.put i cred)
    throw e

/-- The loop of `parse_allow_list_credentials` over the `n` items from number `i` on: the number of
items parsed. -/
def allowListItems : Nat → Nat → CborValue → CtapM Nat
  | 0, i, _ => pure i
  | n + 1, i, arr => do
    failIf (allowListMaxSize ≤ i) .limitExceeded
    parseDescriptorAt i arr
    let arr ← ctapCheck (cborCheck (advance arr))
    allowListItems n (i + 1) arr

/-- `parse_allow_list_credentials`: the new `credLen`. -/
def parseAllowListCredentials (it : CborValue) : CtapM Nat := do
  failIf (it.type ≠ .array) .invalidCbor
  let arr ← ctapCheck (cborCheck (enterContainer it))
  let len ← ctapCheck (cborCheck it.getArrayLength)
  allowListItems len 0 arr

/-- The members of a request that are parsed without the array. -/
def getAssertionMember (GA : GetAssertion) (key : Int) (it : CborValue) : Parse GetAssertion :=
  if key = 1 then do
    let rp ← ctapParseRpId GA.rp it
    pure { GA with rp := rp }
  else if key = 2 then do
    let h ← ctapParseFixedLengthByteString it GA.clientDataHash 32
    pure { GA with clientDataHash := h, clientDataHashPresent := true }
  else if key = 4 then do
    let ext ← ctapExtensionsParseInput .ga GA.extensions it
    pure { GA with extensions := ext }
  else if key = 5 then do
    let o ← ctapParseOptions GA.options it
    pure { GA with options := o }
  else if key = 6 then do
    let p ← ctapParsePinUvAuthParam GA.pinUvAuthParam it
    pure { GA with pinUvAuthParam := p }
  else if key = 7 then do
    let v ← parseUint8 it
    pure { GA with pinProtocol := v }
  else pure GA

/-- Whether a member assigns `ctap_ret`. -/
def assignsStatus (key : Int) : Bool := 1 ≤ key ∧ key ≤ 6

/-- A member of a request. -/
def getAssertionStep (GA : GetAssertion) (key : Int) (it : CborValue) : CtapM GetAssertion :=
  if key = 3 then do
    let credLen ← parseAllowListCredentials it
    pure { GA with credLen := credLen }
  else ctapCheck (getAssertionMember GA key it)

/-- The loop of `parse_get_assertion_request`.  `ctapRet` is checked after every member, also after
one that does not assign it. -/
def getAssertionMembers : Nat → CtapStatus → GetAssertion → CborValue → CtapM GetAssertion
  | 0, _, GA, _ => pure GA
  | n + 1, ctapRet, GA, it => do
    let (key, it) ← ctapCheck (intKey .invalidCbor CborValue.getIntChecked it)
    let GA ← getAssertionStep GA key it
    let ctapRet := if assignsStatus key then .ok else ctapRet
    checkStatus ctapRet
    let it ← ctapCheck (cborCheck (advance it))
    getAssertionMembers n ctapRet GA it

/-- `parse_get_assertion_request`. -/
def parseGetAssertionRequest (request : List UInt8) : CtapM GetAssertion := do
  let it ← ctapCheck (cborCheck (cborParserInit request))
  let (map, len) ← ctapCheck (enterMap .invalidCbor it)
  let junk := (← get).inputs.stackStatus
  getAssertionMembers len (if junk = 0 then .ok else .error (.indeterminate junk)) {} map

/-! ## The credentials of a request -/

/-- What the filter of a request depends on. -/
structure Filter where
  keys : SessionKeys
  rkFiles : Fin 16 → List ResidentKey
  userVerified : Bool
  rpIdHash : Bytes 32
  rpIdLookup : Bytes 16

section Filter

variable (C : Primitives) (f : Filter)

/-- The three checks on an entry of the allow list. -/
def allowListQualifies (cred : CredentialDescriptor) : Bool :=
  ctapCredentialBelongsToRp C f.keys f.rpIdLookup f.rpIdHash cred
    && ctapCheckCredentialMetadata C f.keys cred.id f.userVerified true
    && (!isRkOf C f.keys cred.id || ctapVerifyRkExists C f.keys f.rkFiles cred.id)

/-- An entry of the allow list that does not qualify. -/
def invalidate (cred : CredentialDescriptor) : CredentialDescriptor :=
  { cred with id := cred.id.setCount 0 }

/-- The loop over the allow list in `build_filtered_credential_list`: array, `credLen` and `count`
behind it.  A credential that qualifies moves the bound of the loop. -/
def allowListLoop : Nat → Nat → Nat → Nat → Creds → Creds × Nat × Nat
  | 0, _, credLen, count, creds => (creds, credLen, count)
  | fuel + 1, i, credLen, count, creds =>
    if i < credLen then
      if allowListQualifies C f (creds.nth i) then
        allowListLoop fuel (i + 1) (i + 1) (count + 1) creds
      else allowListLoop fuel (i + 1) credLen count (creds.put i (invalidate (creds.nth i)))
    else (creds, credLen, count)

/-- The checks on a stored record before its own MAC. -/
def storedQualifies (rk : ResidentKey) : Bool :=
  f.rpIdLookup = rk.id.rpIdLookup
    && rk.id.tag = ctapMakeAuthTag C f.keys rk.id.version f.rpIdLookup rk.id.nonce
      rk.id.protectedMetadata rk.id.count
    && ctapCheckCredentialMetadata C f.keys rk.id f.userVerified false

/-- The descriptor of a stored record. -/
def storedDescriptor (rk : ResidentKey) : CredentialDescriptor :=
  { type := .pubKey, id := rk.id, user := (rk.xcrypt C f.keys).user }

/-- The loop over the records of the RP's file: array and `count` behind it. -/
def storedLoop : List ResidentKey → Nat → Creds → Creds × Nat
  | [], count, creds => (creds, count)
  | rk :: l, count, creds =>
    if !storedQualifies C f rk then storedLoop l count creds
    else if allowListMaxSize ≤ count then (creds, count)
    else if !ctapVerifyMac C f.keys rk.rkTag rk.macInput then storedLoop l count creds
    else storedLoop l (count + 1) (creds.put count (storedDescriptor C f rk))

end Filter

/-- `qsort` of the first `n` entries. -/
def sortPrefix (q : Qsort) (n : Nat) (creds : Creds) : Creds :=
  ⟨q.sort (creds.toList.take n) ++ creds.toList.drop n, by
    rw [List.length_append, (q.perm _).length_eq, ← List.length_append, List.take_append_drop,
      List.Vector.toList_length]⟩

variable (P : Platform)

/-- `build_filtered_credential_list` on the array: the array and the number it returns. -/
def filterCredentials (f : Filter) (credLen : Nat) (creds : Creds) : Creds × Nat :=
  let (creds, credLen, count) := allowListLoop P.prims f (credLen + 1) 0 credLen 0 creds
  if credLen = 0 then
    let (creds, count) := storedLoop P.prims f (f.rkFiles (rkFile f.rpIdLookup)) count creds
    (sortPrefix P.qsort count creds, count)
  else (sortPrefix P.qsort credLen creds, count)

/-- The filter of the current request. -/
def World.filter (w : World) (rpIdHash : Bytes 32) (rpIdLookup : Bytes 16) : Filter :=
  { keys := w.keys
    rkFiles := w.rkFiles
    userVerified := w.ga.userVerified ≠ 0
    rpIdHash := rpIdHash
    rpIdLookup := rpIdLookup }

/-- `build_filtered_credential_list`. -/
def buildFilteredCredentialList (GA : GetAssertion) (rpIdHash : Bytes 32) (rpIdLookup : Bytes 16) :
    CtapM Nat := do
  let w ← get
  let (creds, count) := filterCredentials P (w.filter rpIdHash rpIdLookup) GA.credLen w.ga.creds
  setCreds creds
  emit (.filtered (creds.toList.take count))
  pure count

/-! ## The response -/

/-- `ctap_get_assertion_cbor_encode_assertion_response`. -/
def encodeAssertionResponse (map : Encoder) (cred : CredentialDescriptor) (authData : List UInt8)
    (clientDataHash : Bytes 32) : CtapM Encoder := do
  let map ← encode (map.int 1)
  let map ← encode (ctapCborEncodeCredentialDescriptor map cred)
  let map ← encode (map.int 2)
  let map ← encode (map.byteString authData)
  let k := (← get).keys
  let key := cryptoDeriveCredentialKey P.prims k cred.idBytes
  let sig ← ctapSignData P key authData clientDataHash (ctapRestoreMetadataCoseAlg P.prims k cred.id)
  emit (.signed cred authData clientDataHash)
  let map ← encode (map.int 3)
  let map ← encode (map.byteString sig)
  if cred.user.idSize ≠ 0 then
    let map ← encode (map.int 4)
    encode (ctapCborEncodeUserEntity map cred.user ((← get).ga.userVerified ≠ 0))
  else pure map

/-- The name of a user set to zero. -/
def CredentialDescriptor.withoutName (cred : CredentialDescriptor) : CredentialDescriptor :=
  { cred with user := cred.user.setName (List.replicate 65 0) }

/-- Set the flags in the buffer of `getAssertionState`. -/
def updateFlags (f : UInt8 → UInt8) : CtapM Unit := modify fun w =>
  { w with ga := { w.ga with authData := { w.ga.authData with flags := f w.ga.authData.flags } } }

/-- Write the extension output behind the header in the buffer of `getAssertionState`. -/
def putExtensions (out : List UInt8) : CtapM Unit := modify fun w =>
  { w with ga := { w.ga with extBuf := w.ga.extBuf.patch 0 out } }

/-- The authenticator data in `getAssertionState` with `size` bytes of extensions. -/
def GetAssertionState.authDataBytes (s : GetAssertionState) (size : Nat) : List UInt8 :=
  s.authData.bytes ++ s.extBuf.toList.take size

/-- `save_credential_list` of the `count` entries behind the first. -/
def saveCredentialList (clientDataHash : Bytes 32) (count : Nat) (ext : Extensions) :
    CtapM Unit := do
  failIf (allowListMaxSize - 1 < count) .limitExceeded
  onlyIf (count ≠ 0) (modify fun w => { w with ga := { w.ga with
    clientDataHash := clientDataHash
    creds := w.ga.creds.moveDown count
    extensions := ext } })
  modify fun w => { w with ga := { w.ga with
    count := UInt32.ofNat count
    index := 0 } }

/-! ## authenticatorGetAssertion -/

/-- The verification of the pinUvAuthParam in `ctap_get_assertion`. -/
def verifyGetAssertionAuth (GA : GetAssertion) (rpIdHash : Bytes 32) : CtapM Unit := do
  if 0 < GA.pinUvAuthParam.len then
    failIf (GA.pinProtocol = 0) .missingParameter
    clientPinVerifyAuth P GA.pinUvAuthParam.param GA.clientDataHash GA.pinProtocol
    let slot := slotOf GA.pinProtocol
    failIf (¬ clientPinGetUserVerified (← get) slot) .pinAuthInvalid
    failIf (¬ clientPinVerifyPermissions (← get) slot permissionGa) .pinAuthInvalid
    failIf (¬ clientPinVerifyPermissionsRpId (← get) slot rpIdHash) .pinAuthInvalid
    modify fun w => { w with ga := { w.ga with userVerified := 1 } }
  else
    modify fun w => { w with ga := { w.ga with userVerified := 0 } }

/-- The three `ctap_client_pin_clear_*` calls behind a confirmed operation. -/
def clearPinFlags (slot : Slot) : CtapM Unit := do
  clientPinClearUserPresent slot
  clientPinClearUserVerified slot
  clientPinClearPermissionsExceptLbw slot

/-- The user presence test and the authenticator data of `ctap_get_assertion`. -/
def makeAssertionAuthData (GA : GetAssertion) (rpIdHash : Bytes 32) (rpIdLookup : Bytes 16) :
    CtapM Unit := do
  deviceDisableUp (GA.options.up = .no)
  tryCatch
    (discard (ctapMakeAuthData P .assertion GA.rp rpIdHash rpIdLookup none GA.extensions))
    fun e => do
      deviceDisableUp false
      throw e
  deviceDisableUp false
  onlyIf (GA.options.up ≠ .no) (clearPinFlags (slotOf GA.pinProtocol))
  let uv := (← get).ga.userVerified
  updateFlags fun flags => (flags &&& ~~~(4 : UInt8)) ||| (uv <<< 2)

/-- An empty pinUvAuthParam asks for a touch, to select an authenticator. -/
def selectByTouch : CtapM Unit := do
  requireUserPresence
  failWith (if clientPinIsSet (← get) then .pinAuthInvalid else .pinNotSet)

/-- The size of the response map that `ctap_get_assertion` announces. -/
def assertionMapSize (creds : Creds) (validCredCount : Nat) : Nat :=
  3 + (if 1 < validCredCount then 1 else 0)
    + (if (creds.nth (validCredCount - 1)).user.idSize ≠ 0 then 1 else 0)

/-- The user details of an entry are nulled out. -/
def hideName (i : Nat) : CtapM Unit := do
  let creds := (← get).ga.creds
  setCreds (creds.put i (creds.nth i).withoutName)

/-- The number of credentials in the response, where there are several. -/
def encodeCount (map : Encoder) (validCredCount : Nat) : CtapM Encoder := do
  if 1 < validCredCount then
    let map ← encode (map.int 5)
    encode (map.int validCredCount)
  else pure map

/-- The extension output of `ctap_get_assertion` and its size. -/
def assertionExtensions (ext : Extensions) : CtapM Nat := do
  let out ← ctapExtensionsEncodeOutput P ext ((← get).ga.creds.nth 0).id 80
  putExtensions out
  onlyIf (out.length ≠ 0) (updateFlags (· ||| 0x80))
  pure out.length

/-- `ctap_get_assertion`. -/
def ctapGetAssertion (request : List UInt8) : CtapM (List UInt8) := do
  let GA ← parseGetAssertionRequest request
  onlyIf GA.pinUvAuthParam.empty selectByTouch
  failIf (GA.rp.size = 0 ∨ ¬ GA.clientDataHashPresent) .missingParameter
  let (rpIdHash, rpIdLookup) := ctapDeriveRpIdInfo P.prims (← get).keys GA.rp.bytes
  verifyGetAssertionAuth P GA rpIdHash
  let validCredCount ← buildFilteredCredentialList P GA rpIdHash rpIdLookup
  failIf (validCredCount = 0) .noCredentials
  let map ← encode (responseEncoder.createMap (assertionMapSize (← get).ga.creds validCredCount))
  onlyIf (validCredCount < 2 ∨ (← get).ga.userVerified = 0) (hideName 0)
  makeAssertionAuthData P GA rpIdHash rpIdLookup
  let size ← assertionExtensions P GA.extensions
  let ga := (← get).ga
  let map ← encodeAssertionResponse P map (ga.creds.nth 0) (ga.authDataBytes size) GA.clientDataHash
  let map ← encodeCount map validCredCount
  let encoder ← encode (responseEncoder.close map)
  saveCredentialList GA.clientDataHash (validCredCount - 1) GA.extensions
  pure encoder.out

/-! ## authenticatorGetNextAssertion -/

/-- `get_next_credential`: its position. -/
def getNextCredential : CtapM (Option Nat) := do
  let ga := (← get).ga
  if 0 < ga.count ∧ ga.index < ga.count then
    modify fun w => { w with ga := { w.ga with index := w.ga.index + 1 } }
    pure (some ga.index.toNat)
  else pure none

/-- The extension output of `ctap_get_next_assertion` and its size.  The status is not returned: an
error keeps the size of the whole buffer. -/
def nextExtensions : CtapM Nat := do
  let ga := (← get).ga
  tryCatch
    (do
      let ext ← ctapExtensionsEncodeOutput P ga.extensions (ga.creds.nth 0).id 80
      putExtensions ext
      updateFlags fun flags => if ext.length ≠ 0 then flags ||| 0x80 else flags &&& ~~~(0x80 : UInt8)
      pure ext.length)
    fun e =>
      match e with
      | .status _ => pure 80
      | .halt h => throw (.halt h)

/-- `ctap_get_next_assertion`. -/
def ctapGetNextAssertion : CtapM (List UInt8) := do
  match ← getNextCredential with
  | none => failWith .notAllowed
  | some i =>
    let count ← ctapAuthDataUpdateCount
    modify fun w => { w with ga := { w.ga with
      authData := { w.ga.authData with signCount := count } } }
    let ga := (← get).ga
    let map ← encode (responseEncoder.createMap (if (ga.creds.nth i).user.idSize ≠ 0 then 4 else 3))
    onlyIf (ga.userVerified = 0) (hideName i)
    let size ← nextExtensions P
    let ga := (← get).ga
    let map ← encodeAssertionResponse P map (ga.creds.nth i) (ga.authDataBytes size) ga.clientDataHash
    let encoder ← encode (responseEncoder.close map)
    pure encoder.out

end TkeyFido2
