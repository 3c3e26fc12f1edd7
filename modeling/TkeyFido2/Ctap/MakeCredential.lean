import TkeyFido2.Ctap.GetAssertion

/-!
# authenticatorMakeCredential

`ctap_make_credential.c`.
-/

namespace TkeyFido2

open Cbor

/-! ## The request -/

/-- `CTAP_makeCredential`; the four booleans are the bits of `MC_requiredMask` in `paramsParsed`. -/
structure MakeCredential where
  clientDataHashParsed : Bool := false
  rpParsed : Bool := false
  userParsed : Bool := false
  pubKeyCredParamsParsed : Bool := false
  clientDataHash : Bytes 32 := Bytes.zero 32
  rp : RpId := {}
  credInfo : CredInfo := {}
  excludeList : Option CborValue := none
  excludeListSize : Nat := 0
  options : Options := { up := .yes }
  pinUvAuthParam : AuthParam := {}
  pinProtocol : UInt8 := 0
  extensions : Extensions := {}
  deriving DecidableEq

/-- `parse_relying_party_entity`; the name is checked and not used. -/
def parseRelyingPartyEntity (rp : RpId) (val : CborValue) : Parse RpId := do
  let (map, len) ← enterMap .invalidCbor val
  let rp ← textMembers 8 false (fun rp key it => do
    rejectIf (it.type ≠ .textString) .invalidCbor
    if key = ascii "id" then ctapParseRpId rp it
    else if key = ascii "name" then do
      let _ ← parseTruncatedText it 32
      pure rp
    else pure rp) len { rp with size := 0 } map
  rejectIf (rp.size = 0) .missingParameter
  pure rp

/-- `parse_pubkey_credential_params`: type and algorithm number. -/
def parsePubkeyCredentialParams (val : CborValue) : Parse (CredType × Int) := do
  rejectIf (val.type ≠ .map) .invalidCbor
  let cred ← cborCheck (mapFindValue val (ascii "type"))
  let alg ← cborCheck (mapFindValue val (ascii "alg"))
  rejectIf (cred.type ≠ .textString) .missingParameter
  rejectIf (alg.type ≠ .integer) .missingParameter
  let r := copyTextString cred 16
  let _ ← cborCheck r.result
  let algtype ← cborCheck alg.getIntChecked
  pure (if cstr (r.written.take 15) = ascii "public-key" then .pubKey else .unknown, algtype)

/-- `is_pubkey_credential_param_supported`: the algorithm, if it is. -/
def supportedParam (p : CredType × Int) : Option CoseAlg :=
  if p.1 ≠ .pubKey then none
  else if p.2 = CoseAlg.es256.toInt then some .es256
  else if p.2 = CoseAlg.eddsa.toInt then some .eddsa
  else none

/-- The first loop of `find_supported_pubkey_credential_param`. -/
def checkParams : Nat → CborValue → Parse Unit
  | 0, _ => pure ()
  | n + 1, arr => do
    let _ ← parsePubkeyCredentialParams arr
    let arr ← cborCheck (advance arr)
    checkParams n arr

/-- The second loop: the first supported algorithm. -/
def firstSupported : Nat → CborValue → Parse CoseAlg
  | 0, _ => reject .unsupportedAlgorithm
  | n + 1, arr => do
    match parsePubkeyCredentialParams arr with
    | .error (.halt h) => .error (.halt h)
    | .error (.status _) =>
      let arr ← cborCheck (advance arr)
      firstSupported n arr
    | .ok p =>
      match supportedParam p with
      | some alg => pure alg
      | none =>
        let arr ← cborCheck (advance arr)
        firstSupported n arr

/-- `find_supported_pubkey_credential_param`. -/
def findSupportedPubkeyCredentialParam (val : CborValue) : Parse CoseAlg := do
  rejectIf (val.type ≠ .array) .invalidCbor
  let arr ← cborCheck (enterContainer val)
  let len ← cborCheck val.getArrayLength
  checkParams len arr
  let arr ← cborCheck (enterContainer val)
  firstSupported len arr

/-- The loop of `parse_exclude_list`. -/
def checkDescriptors : Nat → CborValue → Parse Unit
  | 0, _ => pure ()
  | n + 1, arr => do
    let _ ← parseDescriptor {} arr
    let arr ← cborCheck (advance arr)
    checkDescriptors n arr

/-- `parse_exclude_list`. -/
def parseExcludeList (val : CborValue) : Parse Unit := do
  rejectIf (val.type ≠ .array) .invalidCbor
  let size ← cborCheck val.getArrayLength
  let arr ← cborCheck (enterContainer val)
  checkDescriptors size arr

/-- The `switch` of `parse_make_credential`. -/
def makeCredentialMember (MC : MakeCredential) (key : Int) (it : CborValue) : Parse MakeCredential :=
  if key = 1 then do
    let h ← ctapParseFixedLengthByteString it MC.clientDataHash 32
    pure { MC with clientDataHash := h, clientDataHashParsed := true }
  else if key = 2 then do
    let rp ← parseRelyingPartyEntity MC.rp it
    pure { MC with rp := rp, rpParsed := true }
  else if key = 3 then do
    let user ← ctapParseUserEntity MC.credInfo.user it
    pure { MC with credInfo := { MC.credInfo with user := user }, userParsed := true }
  else if key = 4 then do
    let alg ← findSupportedPubkeyCredentialParam it
    pure { MC with
      credInfo := { MC.credInfo with
        publicKeyCredentialType := .pubKey
        coseAlgorithmIdentifier := some alg }
      pubKeyCredParamsParsed := true }
  else if key = 5 then do
    parseExcludeList it
    let arr ← cborCheck (enterContainer it)
    let size ← cborCheck it.getArrayLength
    pure { MC with excludeList := some arr, excludeListSize := size }
  else if key = 6 then do
    rejectIf (it.type ≠ .map) .invalidCbor
    let ext ← ctapExtensionsParseInput .mc MC.extensions it
    pure { MC with extensions := ext }
  else if key = 7 then do
    let o ← ctapParseOptions { MC.options with rk := MC.credInfo.rk } it
    pure { MC with options := o, credInfo := { MC.credInfo with rk := o.rk } }
  else if key = 8 then do
    let p ← ctapParsePinUvAuthParam MC.pinUvAuthParam it
    pure { MC with pinUvAuthParam := p }
  else if key = 9 then do
    let v ← parseUint8 it
    pure { MC with pinProtocol := v }
  else pure MC

/-- `parse_make_credential`. -/
def parseMakeCredential (request : List UInt8) : Parse MakeCredential := do
  let it ← cborCheck (cborParserInit request)
  let (map, len) ← enterMap .cborUnexpectedType it
  let (MC, _) ← intMembers .cborUnexpectedType CborValue.getIntChecked makeCredentialMember len {} map
  pure MC

/-! ## The exclude list -/

variable (P : Platform)

/-- Whether an entry of the exclude list stops the request.  `none` means that the loop goes on with
its next round. -/
def excludeCheck (w : World) (rpIdHash : Bytes 32) (rpIdLookup : Bytes 16) (slot : Slot)
    (cred : CredentialDescriptor) : Option Bool :=
  if !ctapCredentialBelongsToRp P.prims w.keys rpIdLookup rpIdHash cred then none
  else if ctapCheckCredentialMetadata P.prims w.keys cred.id (clientPinGetUserVerified w slot) true then
    if isRkOf P.prims w.keys cred.id && !ctapVerifyRkExists P.prims w.keys w.rkFiles cred.id then none
    else some true
  else some false

/-- The loop over the exclude list in `ctap_make_credential`.  A round that is left with `continue`
does not advance the iterator, so that the next one parses the same entry again. -/
def excludeLoop (rpIdHash : Bytes 32) (rpIdLookup : Bytes 16) (slot : Slot) :
    Nat → CredentialDescriptor → CborValue → CtapM Unit
  | 0, _, _ => pure ()
  | n + 1, cred, it => do
    let cred ← ctapCheck (parseDescriptor cred it)
    match excludeCheck P (← get) rpIdHash rpIdLookup slot cred with
    | none => excludeLoop rpIdHash rpIdLookup slot n cred it
    | some true => do
      requireUserPresence
      failWith .credentialExcluded
    | some false =>
      let it ← ctapCheck (cborCheck (advance it))
      excludeLoop rpIdHash rpIdLookup slot n cred it

/-- The exclude list of a request, if it has one. -/
def checkExcludeList (MC : MakeCredential) (rpIdHash : Bytes 32) (rpIdLookup : Bytes 16) :
    CtapM Unit := do
  match MC.excludeList with
  | some it =>
    excludeLoop P rpIdHash rpIdLookup (slotOf MC.pinProtocol) MC.excludeListSize
      (← get).inputs.stackCred it
  | none => pure ()

/-! ## The response -/

def attestationMaxCertSize : Nat := 1024

/-- `attestation_read_cert`. -/
def attestationReadCert (w : World) : Option (List UInt8) :=
  w.attestationCert.filter (·.length ≤ attestationMaxCertSize)

/-- `cbor_encode_attestation_statement`. -/
def cborEncodeAttestationStatement (map : Encoder) (sigder : List UInt8) : CtapM Encoder := do
  let map ← encode (map.int 3)
  if (← get).attestationKey.isSome then
    match attestationReadCert (← get) with
    | none => failWith .other
    | some cert =>
      let stmtmap ← encode (map.createMap 3)
      let stmtmap ← encode (stmtmap.textString (ascii "alg"))
      let stmtmap ← encode (stmtmap.int CoseAlg.es256.toInt)
      let stmtmap ← encode (stmtmap.textString (ascii "sig"))
      let stmtmap ← encode (stmtmap.byteString sigder)
      let stmtmap ← encode (stmtmap.textString (ascii "x5c"))
      let x5carr ← encode (stmtmap.createArray 1)
      let x5carr ← encode (x5carr.byteString cert)
      let stmtmap ← encode (stmtmap.close x5carr)
      encode (map.close stmtmap)
  else
    let stmtmap ← encode (map.createMap 0)
    encode (map.close stmtmap)

/-- The attestation signature; `crypto_ecc256_load_attestation_key` decrypts the key. -/
def attestationSignature (authData : List UInt8) (clientDataHash : Bytes 32) : CtapM (List UInt8) := do
  match (← get).attestationKey with
  | some (keyEnc, nonce) =>
    ctapSignData P (P.prims.aesCtr P.keyAttestationEnc nonce keyEnc) authData clientDataHash .es256
  | none => pure []

/-! ## authenticatorMakeCredential -/

/-- The checks of the pinUvAuthParam in `ctap_make_credential`, where a PIN is set. -/
def verifyMakeCredentialAuth (MC : MakeCredential) : CtapM Unit := do
  if clientPinIsSet (← get) then
    failIf (MC.pinUvAuthParam.len = 0) .puatRequired
    clientPinVerifyAuth P MC.pinUvAuthParam.param MC.clientDataHash MC.pinProtocol
    let slot := slotOf MC.pinProtocol
    failIf (¬ clientPinGetUserVerified (← get) slot) .pinAuthInvalid
    failIf (¬ clientPinVerifyPermissions (← get) slot permissionMc) .pinAuthInvalid

/-- The authenticator data of `ctap_make_credential` with its extensions. -/
def makeCredentialAuthData (MC : MakeCredential) (rpIdHash : Bytes 32) (rpIdLookup : Bytes 16) :
    CtapM (List UInt8) := do
  let (head, attested) ← ctapMakeAuthData P .scratch MC.rp rpIdHash rpIdLookup (some MC.credInfo)
    MC.extensions
  clearPinFlags (slotOf MC.pinProtocol)
  let size := head.bytes.length + attested.length
  let ext ← ctapExtensionsEncodeOutput P MC.extensions {} (310 - size)
  let head := if ext.length ≠ 0 then { head with flags := head.flags ||| 0x80 } else head
  pure (head.bytes ++ attested ++ ext)

/-- `ctap_make_credential`. -/
def ctapMakeCredential (request : List UInt8) : CtapM (List UInt8) := do
  let MC ← ctapCheck (parseMakeCredential request)
  onlyIf MC.pinUvAuthParam.empty selectByTouch
  failIf (¬ (MC.clientDataHashParsed ∧ MC.rpParsed ∧ MC.userParsed ∧ MC.pubKeyCredParamsParsed))
    .missingParameter
  verifyMakeCredentialAuth P MC
  failIf (MC.options.up = .no) .invalidOption
  let slot := slotOf MC.pinProtocol
  let (rpIdHash, rpIdLookup) := ctapDeriveRpIdInfo P.prims (← get).keys MC.rp.bytes
  failIf (clientPinIsSet (← get) ∧ ¬ clientPinVerifyPermissionsRpId (← get) slot rpIdHash)
    .pinAuthInvalid
  checkExcludeList P MC rpIdHash rpIdLookup
  let map ← encode (responseEncoder.createMap 3)
  let map ← encode (map.int 1)
  let map ← encode (map.textString
    (if (← get).attestationKey.isSome then ascii "packed" else ascii "none"))
  let authData ← makeCredentialAuthData P MC rpIdHash rpIdLookup
  let map ← encode (map.int 2)
  let map ← encode (map.byteString authData)
  let sigder ← attestationSignature P authData MC.clientDataHash
  let map ← cborEncodeAttestationStatement map sigder
  let encoder ← encode (responseEncoder.close map)
  pure encoder.out

end TkeyFido2
