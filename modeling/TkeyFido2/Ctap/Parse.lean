import TkeyFido2.Ctap.Credential

/-!
# Parsing requests

`ctap_parse.c`, `cose_key_parse` and the parsing half of `ctap_extensions.c`.  A structure that a
parser fills is passed in and returned; what a failing parser has written to it is lost, since the
caller then drops the structure.  Only a credential descriptor may lie in a global array, so its
parser keeps what it wrote.
-/

namespace TkeyFido2

open Cbor

/-! ## Maps -/

/-- The entry into a map: its type is checked, then its length. -/
def enterMap (typeError : CtapError) (it : CborValue) : Parse (CborValue × Nat) := do
  rejectIf (it.type ≠ .map) typeError
  let map ← cborCheck (enterContainer it)
  let len ← cborCheck it.getMapLength
  pure (map, len)

/-- An integer key of a map and the value behind it. -/
def intKey (typeError : CtapError) (getKey : CborValue → CborM Int) (it : CborValue) :
    Parse (Int × CborValue) := do
  rejectIf (it.type ≠ .integer) typeError
  let key ← cborCheck (getKey it)
  let it ← cborCheck (advance it)
  pure (key, it)

/-- The loop over a map with integer keys. -/
def intMembers {σ : Type} (typeError : CtapError) (getKey : CborValue → CborM Int)
    (member : σ → Int → CborValue → Parse σ) : Nat → σ → CborValue → Parse (σ × CborValue)
  | 0, s, it => pure (s, it)
  | n + 1, s, it => do
    let (key, it) ← intKey typeError getKey it
    let s ← member s key it
    let it ← cborCheck (advance it)
    intMembers typeError getKey member n s it

/-- A property that every member keeps. -/
theorem intMembers_keeps {σ : Type} {e : CtapError} {getKey : CborValue → CborM Int}
    {member : σ → Int → CborValue → Parse σ} {Q : σ → Prop}
    (hmember : ∀ s key it s', member s key it = .ok s' → Q s → Q s') {n : Nat} {s s' : σ}
    {it it' : CborValue} (h : intMembers e getKey member n s it = .ok (s', it')) (hs : Q s) : Q s' := by
  induction n generalizing s it with
  | zero =>
    obtain ⟨rfl, -⟩ := Prod.mk.inj (Except.ok.inj h)
    exact hs
  | succ n ih =>
    unfold intMembers at h
    obtain ⟨⟨key, it₁⟩, -, h⟩ := Prog.except_bind_eq_ok.mp h
    obtain ⟨s₁, hs₁, h⟩ := Prog.except_bind_eq_ok.mp h
    obtain ⟨it₂, -, h⟩ := Prog.except_bind_eq_ok.mp h
    exact ih h (hmember _ _ _ _ hs₁ hs)

/-- A text key of a map, copied to a buffer of `keySize` bytes; `none` for one that does not fit. -/
def textKey (keySize : Nat) (it : CborValue) : Parse (Option (List UInt8)) := do
  rejectIf (it.type ≠ .textString) .invalidCbor
  let r := copyTextString it keySize
  match r.result with
  | .error (.err .outOfMemory) => pure none
  | .error e => cborCheck (.error e)
  | .ok _ => pure (some (cstr (r.written.take (keySize - 1))))

/-- The loop over a map with text keys.  A key that is too long is an error or skips the member. -/
def textMembers {σ : Type} (keySize : Nat) (skipLong : Bool)
    (member : σ → List UInt8 → CborValue → Parse σ) : Nat → σ → CborValue → Parse σ
  | 0, s, _ => pure s
  | n + 1, s, it => do
    match ← textKey keySize it with
    | none =>
      rejectIf (skipLong = false) .limitExceeded
      let it ← cborCheck (advance it)
      let it ← cborCheck (advance it)
      textMembers keySize skipLong member n s it
    | some key =>
      let it ← cborCheck (advance it)
      let s ← member s key it
      let it ← cborCheck (advance it)
      textMembers keySize skipLong member n s it

/-- A property that every member keeps. -/
theorem textMembers_keeps {σ : Type} {keySize : Nat} {skipLong : Bool}
    {member : σ → List UInt8 → CborValue → Parse σ} {Q : σ → Prop}
    (hmember : ∀ s key it s', member s key it = .ok s' → Q s → Q s') {n : Nat} {s s' : σ} {it : CborValue}
    (h : textMembers keySize skipLong member n s it = .ok s') (hs : Q s) : Q s' := by
  induction n generalizing s it with
  | zero =>
    obtain rfl := Except.ok.inj h
    exact hs
  | succ n ih =>
    unfold textMembers at h
    obtain ⟨key, -, h⟩ := Prog.except_bind_eq_ok.mp h
    cases key with
    | none =>
      obtain ⟨_, -, h⟩ := Prog.except_bind_eq_ok.mp h
      obtain ⟨it₁, -, h⟩ := Prog.except_bind_eq_ok.mp h
      obtain ⟨it₂, -, h⟩ := Prog.except_bind_eq_ok.mp h
      exact ih h hs
    | some key =>
      obtain ⟨it₁, -, h⟩ := Prog.except_bind_eq_ok.mp h
      obtain ⟨s₁, hs₁, h⟩ := Prog.except_bind_eq_ok.mp h
      obtain ⟨it₂, -, h⟩ := Prog.except_bind_eq_ok.mp h
      exact ih h (hmember _ _ _ _ hs₁ hs)

/-! ## Members of several requests -/

/-- `ctap_parse_fixed_length_byte_string`. -/
def ctapParseFixedLengthByteString {n : Nat} (it : CborValue) (dst : Bytes n) (len : Nat) :
    Parse (Bytes n) := do
  rejectIf (it.type ≠ .byteString) .invalidCbor
  let r := copyByteString it len
  let (sz, _) ← cborCheck r.result
  rejectIf (sz ≠ len) .invalidLength
  pure (dst.patch 0 r.written)

/-- An integer member between 0 and 255. -/
def parseUint8 (it : CborValue) : Parse UInt8 := do
  rejectIf (it.type ≠ .integer) .invalidCbor
  let tmp ← cborCheck it.getIntChecked
  rejectIf (tmp < 0 ∨ 255 < tmp) .invalidCbor
  pure (UInt8.ofNat tmp.toNat)

/-- The options of a request. -/
structure Options where
  rk : Bool := false
  uv : Bool := false
  up : UpOption
  deriving DecidableEq

/-- `ctap_parse_options`. -/
def ctapParseOptions (o : Options) (val : CborValue) : Parse Options := do
  let (map, len) ← enterMap .invalidCbor val
  textMembers 8 false (fun o key it => do
    rejectIf (it.type ≠ .boolean) .invalidCbor
    if key = ascii "rk" then
      let b ← cborCheck it.getBoolean
      pure { o with rk := b }
    else if key = ascii "uv" then
      let b ← cborCheck it.getBoolean
      pure { o with uv := b }
    else if key = ascii "up" then
      let b ← cborCheck it.getBoolean
      pure { o with up := if b then .yes else .no }
    else pure o) len o map

/-- A parsed pinUvAuthParam. -/
structure AuthParam where
  empty : Bool := false
  param : Bytes 32 := Bytes.zero 32
  len : UInt8 := 0
  deriving DecidableEq

/-- `ctap_parse_pinUvAuthParam`. -/
def ctapParsePinUvAuthParam (p : AuthParam) (it : CborValue) : Parse AuthParam := do
  rejectIf (it.type ≠ .byteString) .invalidCbor
  let sz ← cborCheck it.getStringLength
  if sz = 0 then pure { p with empty := true, len := 0 }
  else
    let r := copyByteString it 32
    let (sz, _) ← cborCheck r.result
    rejectIf (sz ≠ 32 ∧ sz ≠ 16) .invalidLength
    pure { p with param := p.param.patch 0 r.written, len := UInt8.ofNat sz }

/-- `ctap_parse_rp_id`. -/
def ctapParseRpId (rp : RpId) (val : CborValue) : Parse RpId := do
  rejectIf (val.type ≠ .textString) .invalidCbor
  let r := copyTextString val 253
  match r.result with
  | .error (.err .outOfMemory) => reject .limitExceeded
  | .error e => cborCheck (.error e)
  | .ok (sz, _) => pure { id := (rp.id.patch 0 r.written).patch 253 [0], size := sz }

/-- A text member that is cut to the size of its buffer; `written` is what was copied. -/
def parseTruncatedText (it : CborValue) (limit : Nat) : Parse (List UInt8) := do
  rejectIf (it.type ≠ .textString) .invalidCbor
  let r := copyTextString it limit
  match r.result with
  | .error (.err .outOfMemory) => pure r.written
  | .error e => cborCheck (.error e)
  | .ok _ => pure r.written

/-- `ctap_parse_user_entity`. -/
def ctapParseUserEntity (user : UserEntity) (val : CborValue) : Parse UserEntity := do
  let (map, len) ← enterMap .invalidCbor val
  textMembers 24 false (fun user key it => do
    if key = ascii "id" then
      rejectIf (it.type ≠ .byteString) .invalidCbor
      let r := copyByteString it 64
      match r.result with
      | .error (.err .outOfMemory) => reject .limitExceeded
      | .error e => cborCheck (.error e)
      | .ok (sz, _) => pure ((user.setId r.written).setIdSize (UInt8.ofNat sz))
    else if key = ascii "name" then
      let name ← parseTruncatedText it 65
      pure ⟨(user.setName name).raw.patch 129 [0]⟩
    else if key = ascii "displayName" then
      let name ← parseTruncatedText it 32
      pure ⟨(user.setDisplayName name).raw.patch 161 [0]⟩
    else if key = ascii "icon" then do
      rejectIf (it.type ≠ .textString) .invalidCbor
      pure user
    else pure user) len user map

/-- `ctap_parse_pubkey_credential_descriptor`, on the descriptor that it fills. -/
def ctapParsePubkeyCredentialDescriptor (arr : CborValue) : EStateM Stop CredentialDescriptor Unit := do
  modify fun cred => { cred with type := .none }
  ctapCheck (rejectIf (arr.type ≠ .map) .invalidCbor)
  let val ← ctapCheck (cborCheck (mapFindValue arr (ascii "id")))
  ctapCheck (rejectIf (val.type ≠ .byteString) .missingParameter)
  let sz ← ctapCheck (cborCheck (calculateStringLength val))
  -- credential IDs of other authenticators may be larger
  if 57 < sz then
    modify fun cred => { cred with type := .unknown }
  else
    let r := copyByteString val 57
    modify fun cred => { cred with id := ⟨cred.id.raw.patch 0 r.written⟩ }
    let (sz, _) ← ctapCheck (cborCheck r.result)
    onlyIf (sz = u2fKeyHandleSize) (modify fun cred => { cred with type := .ctap1 })
    let val ← ctapCheck (cborCheck (mapFindValue arr (ascii "type")))
    ctapCheck (rejectIf (val.type ≠ .textString) .missingParameter)
    let r := copyTextString val 12
    match r.result with
    | .error (.err .outOfMemory) => modify fun cred => { cred with type := .unknown }
    | .error e => ctapCheck (cborCheck (.error e))
    | .ok _ =>
      if cstr r.written = ascii "public-key" then
        modify fun cred => { cred with type := if cred.type = .none then .pubKey else cred.type }
      else modify fun cred => { cred with type := .unknown }

/-- The parsed descriptor, where a failed parse drops it. -/
def parseDescriptor (cred : CredentialDescriptor) (arr : CborValue) : Parse CredentialDescriptor :=
  match ctapParsePubkeyCredentialDescriptor arr cred with
  | .ok _ cred => .ok cred
  | .error e _ => .error e

/-! ## COSE keys -/

/-- The locals of `cose_key_parse`. -/
structure CoseKeyParse where
  cose : CoseKey
  xkey : Bool := false
  ykey : Bool := false
  deriving DecidableEq

/-- An integer member of a COSE key. -/
def parseCoseInt (it : CborValue) : Parse Int := do
  rejectIf (it.type ≠ .integer) .invalidCbor
  cborCheck it.getIntChecked

/-- The `switch` of `cose_key_parse`. -/
def coseKeyMember (s : CoseKeyParse) (key : Int) (it : CborValue) : Parse CoseKeyParse :=
  if key = 1 then do
    let kty ← parseCoseInt it
    pure { s with cose := { s.cose with kty := kty } }
  else if key = -1 then do
    let crv ← parseCoseInt it
    pure { s with cose := { s.cose with crv := crv } }
  else if key = -2 then do
    let x ← ctapParseFixedLengthByteString it s.cose.x 32
    pure { s with cose := { s.cose with x := x }, xkey := true }
  else if key = -3 then do
    let y ← ctapParseFixedLengthByteString it s.cose.y 32
    pure { s with cose := { s.cose with y := y }, ykey := true }
  else pure s

/-- `cose_key_parse`. -/
def coseKeyParse (cose : CoseKey) (it : CborValue) : Parse CoseKey := do
  let (map, len) ← enterMap .invalidCbor it
  let (s, _) ← intMembers .invalidCbor CborValue.getIntChecked coseKeyMember len
    { cose := { cose with kty := 0, crv := 0 } } map
  rejectIf (s.xkey = false ∨ s.ykey = false ∨ s.cose.kty = 0 ∨ s.cose.crv = 0) .missingParameter
  pure s.cose

/-! ## Extensions -/

/-- The `switch` of `ctap_extensions_parse_hmac_secret`, with the count of parsed members.  The type
of the two salts is not checked before they are copied. -/
def hmacSecretMember (s : Extensions × UInt8) (key : Int) (it : CborValue) :
    Parse (Extensions × UInt8) :=
  if key = 1 then do
    let k ← coseKeyParse s.1.keyAgreement it
    pure ({ s.1 with keyAgreement := k }, s.2 + 1)
  else if key = 2 then do
    let r := copyByteString it 64
    match r.result with
    | .error (.err .outOfMemory) => reject .invalidLength
    | .error e => cborCheck (.error e)
    | .ok (sz, _) =>
      rejectIf (sz ≠ 32 ∧ sz ≠ 64) .invalidLength
      pure ({ s.1 with saltEnc := s.1.saltEnc.patch 0 r.written, saltLen := UInt8.ofNat sz }, s.2 + 1)
  else if key = 3 then do
    let r := copyByteString it 32
    let _ ← cborCheck r.result
    pure ({ s.1 with saltAuth := s.1.saltAuth.patch 0 r.written }, s.2 + 1)
  else pure s

/-- `ctap_extensions_parse_hmac_secret`. -/
def ctapExtensionsParseHmacSecret (ext : Extensions) (val : CborValue) : Parse Extensions := do
  let (map, len) ← enterMap .invalidCbor val
  let (s, _) ← intMembers .invalidCbor CborValue.getInt hmacSecretMember len (ext, 0) map
  rejectIf (s.2 ≠ 3) .missingParameter
  pure s.1

/-- `ReqType`. -/
inductive ReqType
  | mc
  | ga
  deriving DecidableEq, Repr

/-- The members of `ctap_extensions_parse_input`. -/
def extensionsMember (request : ReqType) (ext : Extensions) (key : List UInt8) (it : CborValue) :
    Parse Extensions :=
  if key = ascii "hmac-secret" then
    match request with
    | .mc => do
      rejectIf (it.type ≠ .boolean) .invalidCbor
      let b ← cborCheck it.getBoolean
      pure (if b then { ext with hmacSecretPresent := .requested } else ext)
    | .ga => do
      rejectIf (it.type ≠ .map) .invalidCbor
      let ext ← ctapExtensionsParseHmacSecret ext it
      pure { ext with hmacSecretPresent := .parsed }
  else if key = ascii "credProtect" then do
    rejectIf (request ≠ .mc) .invalidCbor
    rejectIf (it.type ≠ .integer) .invalidCbor
    let value ← cborCheck it.getInt
    rejectIf (¬ (1 ≤ value ∧ value ≤ 3)) .invalidParameter
    pure { ext with credProtect := UInt8.ofNat value.toNat }
  else pure ext

/-- `ctap_extensions_parse_input`. -/
def ctapExtensionsParseInput (request : ReqType) (ext : Extensions) (val : CborValue) :
    Parse Extensions := do
  let (map, len) ← enterMap .invalidCbor val
  textMembers 16 true (extensionsMember request) len ext map

end TkeyFido2
