import TkeyFido2.Cbor.Output
import TkeyFido2.Ctap.Invariant
import TkeyFido2.Ctap.StateRoundTrip

/-!
# The stages of authenticatorMakeCredential

A request is checked, then its exclude list, and then the response is made: the authenticator data with the
new credential, the signature over it, and the attestation statement.  For each stage: which errors it
raises, and how many bytes it contributes to the response.
-/

namespace TkeyFido2

open Cbor Encoder Prog

variable {P : Platform} {w w' : World}

/-! ## Stages -/

section Stages

variable (P)

/-- The checks in front of the exclude list: the request, with hash and lookup MAC of its RP ID. -/
def makeCredentialChecks (request : List UInt8) : CtapM (MakeCredential × Bytes 32 × Bytes 16) := do
  let MC ← ctapCheck (parseMakeCredential request)
  onlyIf MC.pinUvAuthParam.empty selectByTouch
  failIf (¬ (MC.clientDataHashParsed ∧ MC.rpParsed ∧ MC.userParsed ∧ MC.pubKeyCredParamsParsed))
    .missingParameter
  verifyMakeCredentialAuth P MC
  failIf (MC.options.up = .no) .invalidOption
  let (rpIdHash, rpIdLookup) := ctapDeriveRpIdInfo P.prims (← get).keys MC.rp.bytes
  failIf (clientPinIsSet (← get) ∧ ¬ clientPinVerifyPermissionsRpId (← get) (slotOf MC.pinProtocol) rpIdHash)
    .pinAuthInvalid
  pure (MC, rpIdHash, rpIdLookup)

/-- What follows the authenticator data in the response. -/
def makeCredentialStatement (MC : MakeCredential) (map : Encoder) (authData : List UInt8) :
    CtapM (List UInt8) := do
  let map ← encode (map.int 2)
  let map ← encode (map.byteString authData)
  let sigder ← attestationSignature P authData MC.clientDataHash
  let map ← cborEncodeAttestationStatement map sigder
  let encoder ← encode (responseEncoder.close map)
  pure encoder.out

/-- The response behind the exclude list. -/
def makeCredentialResponse (MC : MakeCredential) (rpIdHash : Bytes 32) (rpIdLookup : Bytes 16) :
    CtapM (List UInt8) := do
  let map ← encode (responseEncoder.createMap 3)
  let map ← encode (map.int 1)
  let map ← encode (map.textString
    (if (← get).attestationKey.isSome then ascii "packed" else ascii "none"))
  let authData ← makeCredentialAuthData P MC rpIdHash rpIdLookup
  makeCredentialStatement P MC map authData

end Stages

theorem ctapMakeCredential_eq {request : List UInt8} :
    ctapMakeCredential P request = makeCredentialChecks P request >>= fun x =>
      checkExcludeList P x.1 x.2.1 x.2.2 >>= fun _ => makeCredentialResponse P x.1 x.2.1 x.2.2 := by
  unfold ctapMakeCredential makeCredentialChecks
  simp only [bind_assoc, pure_bind]
  rfl

/-! ## Errors -/

/-- One of the statuses in `l`, or a stop of the program. -/
def Stop.In (l : List CtapError) : Stop → Prop
  | .status s => s ∈ l
  | .halt _ => True

theorem Stop.In.mono {l l' : List CtapError} (h : l ⊆ l') : ∀ e, Stop.In l e → Stop.In l' e
  | .status _, he => h he
  | .halt _, _ => trivial

section Raises

variable {α : Type} {l : List CtapError}

theorem Raises.widen {m : CtapM α} {l' : List CtapError} (hm : Raises (Stop.In l) m) (h : l ⊆ l') :
    Raises (Stop.In l') m := Raises.mono hm (Stop.In.mono h)

theorem raises_failWith {s : CtapError} (hs : s ∈ l) : Raises (Stop.In l) (failWith s : CtapM α) :=
  raises_throw hs

theorem raises_halt {h : Halt} : Raises (Stop.In l) (throw (.halt h) : CtapM α) := raises_throw trivial

theorem raises_failIf {c : Prop} [Decidable c] {s : CtapError} (hs : s ∈ l) :
    Raises (Stop.In l) (failIf c s) := raises_ite (raises_failWith hs) raises_pure

theorem raises_onlyIf {R : Stop → Prop} {c : Prop} [Decidable c] {m : CtapM Unit} (h : Raises R m) :
    Raises R (onlyIf c m) := raises_ite h raises_pure

theorem raises_encode {x : EncM α} (h : CtapError.invalidCbor ∈ l) : Raises (Stop.In l) (encode x) := by
  cases x with
  | ok a => exact raises_pure
  | error e => exact raises_throw h

theorem raises_drawing {R : Stop → Prop} {f : (Nat → UInt8) → α × Nat} : Raises R (drawing f) :=
  raises_modifyGet

theorem raises_ctapGenerateRng {R : Stop → Prop} {n : Nat} : Raises R (ctapGenerateRng n) := raises_modifyGet

theorem raises_emit {R : Stop → Prop} {e : Event} : Raises R (emit e) := raises_modify

theorem raises_ctapUserPresenceTest {R : Stop → Prop} : Raises R ctapUserPresenceTest :=
  raises_get.bind fun _ => raises_ite raises_pure
    (raises_modifyGet.bind fun _ => raises_emit.bind fun _ => raises_pure)

theorem raises_ctap2UserPresenceTest {R : Stop → Prop} : Raises R ctap2UserPresenceTest := by
  refine raises_ctapUserPresenceTest.bind fun r => ?_
  cases r with
  | disabled => exact raises_pure
  | present => exact raises_pure
  | absent => exact raises_pure

theorem raises_ctapAuthDataUpdateCount {R : Stop → Prop} : Raises R ctapAuthDataUpdateCount := by
  have hcount {n : UInt32} : Raises R (ctapAtomicCount n) :=
    (raises_ite (raises_ctapGenerateRng.bind fun _ => raises_pure) raises_pure).bind fun _ =>
      raises_modifyGet.bind fun _ => raises_emit.bind fun _ => raises_pure
  exact hcount.bind fun _ => raises_ite hcount raises_pure

/-- The results of a user presence test. -/
theorem ctap2UserPresenceTest_yields :
    Yields (fun r => r = .ok ∨ r = .error .userPresenceDisabled ∨ r = .error .operationDenied)
      ctap2UserPresenceTest := by
  refine yields_bind fun r => ?_
  cases r with
  | disabled => exact yields_pure (.inr (.inl rfl))
  | present => exact yields_pure (.inl rfl)
  | absent => exact yields_pure (.inr (.inr rfl))

theorem raises_makeAuthDataHeader {h : Bytes 32} :
    Raises (Stop.In [.operationDenied]) (makeAuthDataHeader .scratch h) := by
  refine raises_get.bind fun _ => raises_pure.bind fun _ => raises_ctapAuthDataUpdateCount.bind fun _ =>
    raises_pure.bind fun _ => raises_ctap2UserPresenceTest.bind_yields ctap2UserPresenceTest_yields ?_
  rintro up (rfl | rfl | rfl)
  · exact raises_pure.bind fun _ => raises_get.bind fun _ => raises_pure.bind fun _ => raises_pure
  · exact raises_pure.bind fun _ => raises_get.bind fun _ => raises_pure.bind fun _ => raises_pure
  · exact (raises_failWith (by simp)).bind fun _ => raises_get.bind fun _ => raises_pure.bind fun _ => raises_pure

theorem raises_ctapOverwriteRk {R : Stop → Prop} {rk : ResidentKey} : Raises R (ctapOverwriteRk P rk) := by
  have hwrite {n : Fin 16} {l : List ResidentKey} {c : RkChange} : Raises R (writeRkFile n l c) :=
    raises_modify.bind fun _ => raises_emit.bind fun _ => raises_emit
  have hstate : Raises R (authenticatorWriteState P) := by
    intro w e w' h
    rw [authenticatorWriteState_eq] at h
    exact absurd h nofun
  refine raises_get.bind fun w => ?_
  dsimp only
  cases overwriteFirst rk (w.rkFiles (rkFile rk.id.rpIdLookup)) with
  | some file => exact hwrite
  | none => exact hwrite.bind fun _ => raises_modify.bind fun _ => hstate

theorem raises_storeResidentKey {rp : RpId} {h : Bytes 32} {id : CredentialId} {user : UserEntity} :
    Raises (Stop.In [.keyStoreFull]) (storeResidentKey P rp h id user) :=
  raises_get.bind fun _ => (raises_failIf (by simp)).bind fun _ => raises_ctapGenerateRng.bind fun _ =>
    raises_get.bind fun _ => raises_ctapOverwriteRk

theorem raises_coseKeyGenerate {R : Stop → Prop} {e : Encoder} {data : List UInt8} {t : CredType}
    {a : Option CoseAlg} : Raises R (coseKeyGenerate P e data t a) := by
  refine raises_ite raises_pure ?_
  split
  · exact Raises.bind (raises_get.bind fun _ => raises_drawing.bind fun _ => raises_pure) fun _ => raises_pure
  · exact raises_get.bind fun _ => raises_pure
  · exact raises_pure

theorem raises_ctapMakeAuthData {rp : RpId} {h : Bytes 32} {l : Bytes 16} {c : CredInfo} {e : Extensions} :
    Raises (Stop.In [.operationDenied, .keyStoreFull]) (ctapMakeAuthData P .scratch rp h l (some c) e) := by
  refine (Raises.widen raises_makeAuthDataHeader (by simp)).bind fun (_, _) => Raises.bind ?_ fun _ => raises_pure
  exact raises_get.bind fun _ => raises_ctapGenerateRng.bind fun _ =>
    (raises_onlyIf (Raises.widen raises_storeResidentKey (by simp))).bind fun _ =>
    raises_coseKeyGenerate.bind fun _ => raises_pure

theorem raises_ctapExtensionsEncodeOutput {e : Extensions} {id : CredentialId} {size : Nat} :
    Raises (Stop.In [.pinAuthInvalid, .invalidCbor]) (ctapExtensionsEncodeOutput P e id size) := by
  refine Raises.bind (raises_ite (Raises.map ?_) raises_pure) fun _ =>
    raises_ite raises_pure (raises_encode (by simp))
  refine Raises.bind ?_ fun (_, _) => (raises_failIf (by simp)).bind fun _ => raises_get.bind fun _ =>
    raises_emit.bind fun _ => raises_pure
  refine raises_get.bind fun _ => raises_drawing.bind fun point => ?_
  cases point with
  | some point => exact raises_pure
  | none => exact raises_halt

theorem raises_clearPinFlags {R : Stop → Prop} {slot : Slot} : Raises R (clearPinFlags slot) :=
  raises_modify.bind fun _ => raises_modify.bind fun _ => raises_modify

theorem raises_makeCredentialAuthData {MC : MakeCredential} {h : Bytes 32} {l : Bytes 16} :
    Raises (Stop.In [.operationDenied, .keyStoreFull, .pinAuthInvalid, .invalidCbor])
      (makeCredentialAuthData P MC h l) :=
  (Raises.widen raises_ctapMakeAuthData (by simp)).bind fun (_, _) => raises_clearPinFlags.bind fun _ =>
    (Raises.widen raises_ctapExtensionsEncodeOutput (by simp)).bind fun _ => raises_pure

theorem raises_attestationSignature {data : List UInt8} {hash : Bytes 32} :
    Raises (Stop.In []) (attestationSignature P data hash) := by
  refine raises_get.bind fun w => ?_
  rcases w.attestationKey with _ | ⟨keyEnc, nonce⟩
  · exact raises_pure
  · refine raises_ite (raises_ite raises_pure (raises_emit.bind fun _ => raises_pure)) ?_
    refine raises_drawing.bind fun sig => ?_
    cases sig with
    | some sig => exact raises_emit.bind fun _ => raises_pure
    | none => exact raises_halt

theorem raises_cborEncodeAttestationStatement {map : Encoder} {sigder : List UInt8} :
    Raises (Stop.In [.other, .invalidCbor]) (cborEncodeAttestationStatement map sigder) := by
  have henc {x : EncM Encoder} : Raises (Stop.In [.other, .invalidCbor]) (encode x) := raises_encode (by simp)
  refine henc.bind fun _ => raises_get.bind fun _ => raises_ite (raises_get.bind fun w => ?_)
    (henc.bind fun _ => henc)
  cases attestationReadCert w with
  | none => exact raises_failWith (by simp)
  | some cert =>
    exact henc.bind fun _ => henc.bind fun _ => henc.bind fun _ => henc.bind fun _ => henc.bind fun _ =>
      henc.bind fun _ => henc.bind fun _ => henc.bind fun _ => henc.bind fun _ => henc

theorem raises_makeCredentialStatement {MC : MakeCredential} {map : Encoder} {authData : List UInt8} :
    Raises (Stop.In [.other, .invalidCbor]) (makeCredentialStatement P MC map authData) := by
  have henc {x : EncM Encoder} : Raises (Stop.In [.other, .invalidCbor]) (encode x) := raises_encode (by simp)
  exact henc.bind fun _ => henc.bind fun _ => (Raises.widen raises_attestationSignature (by simp)).bind fun _ =>
    raises_cborEncodeAttestationStatement.bind fun _ => henc.bind fun _ => raises_pure

/-- The statuses of the response stage. -/
def responseErrors : List CtapError := [.operationDenied, .keyStoreFull, .pinAuthInvalid, .other, .invalidCbor]

theorem raises_makeCredentialResponse {MC : MakeCredential} {h : Bytes 32} {l : Bytes 16} :
    Raises (Stop.In responseErrors) (makeCredentialResponse P MC h l) := by
  have henc {x : EncM Encoder} : Raises (Stop.In responseErrors) (encode x) := raises_encode (by decide)
  exact henc.bind fun _ => henc.bind fun _ => raises_get.bind fun _ => henc.bind fun _ =>
    (Raises.widen raises_makeCredentialAuthData (by decide)).bind fun _ =>
    Raises.widen raises_makeCredentialStatement (by decide)

end Raises

/-! ## Parsed requests -/

section Parsed

open Prog

/-- What the parser leaves in the extensions of authenticatorMakeCredential. -/
structure Extensions.OfMakeCredential (e : Extensions) : Prop where
  notParsed : e.hmacSecretPresent ≠ .parsed
  credProtect : e.credProtect.toNat ≤ 3

theorem extensionsMember_ok {e e' : Extensions} {key : List UInt8} {it : CborValue}
    (h : extensionsMember .mc e key it = .ok e') (he : e.OfMakeCredential) : e'.OfMakeCredential := by
  unfold extensionsMember at h
  split_ifs at h with hhmac hprotect
  · obtain ⟨_, -, h⟩ := except_bind_eq_ok.mp h
    obtain ⟨b, -, h⟩ := except_bind_eq_ok.mp h
    obtain rfl := except_pure_eq_ok.mp h
    cases b with
    | false => exact he
    | true => exact ⟨by simp, he.credProtect⟩
  · obtain ⟨_, -, h⟩ := except_bind_eq_ok.mp h
    obtain ⟨_, -, h⟩ := except_bind_eq_ok.mp h
    obtain ⟨value, -, h⟩ := except_bind_eq_ok.mp h
    obtain ⟨_, hrange, h⟩ := except_bind_eq_ok.mp h
    obtain rfl := except_pure_eq_ok.mp h
    refine ⟨he.notParsed, ?_⟩
    have hle := not_not.mp (rejectIf_eq_ok.mp hrange)
    show (UInt8.ofNat value.toNat).toNat ≤ 3
    rw [UInt8.toNat_ofNat']
    omega
  · obtain rfl := except_pure_eq_ok.mp h
    exact he

theorem firstSupported_ok {n : Nat} {arr : CborValue} {alg : CoseAlg} (h : firstSupported n arr = .ok alg) :
    alg = .es256 ∨ alg = .eddsa := by
  induction n generalizing arr with
  | zero => exact (reject_ne_ok.mp h).elim
  | succ n ih =>
    unfold firstSupported at h
    split at h
    · cases h
    · obtain ⟨arr', -, h⟩ := except_bind_eq_ok.mp h
      exact ih h
    · split at h
      · rename_i p _ _ hp
        obtain rfl := except_pure_eq_ok.mp h
        unfold supportedParam at hp
        split_ifs at hp
        · exact .inl (Option.some.inj hp).symm
        · exact .inr (Option.some.inj hp).symm
      · obtain ⟨arr', -, h⟩ := except_bind_eq_ok.mp h
        exact ih h

/-- What is known of a request that was parsed. -/
structure MakeCredential.Parsed (MC : MakeCredential) : Prop where
  extensions : MC.extensions.OfMakeCredential
  algorithm : MC.pubKeyCredParamsParsed = true → MC.credInfo.publicKeyCredentialType = .pubKey ∧
    (MC.credInfo.coseAlgorithmIdentifier = some .es256 ∨ MC.credInfo.coseAlgorithmIdentifier = some .eddsa)
  excludeList : ∀ arr, MC.excludeList = some arr → ∃ arr', checkDescriptors MC.excludeListSize arr = .ok arr'

theorem makeCredentialMember_ok {MC MC' : MakeCredential} {key : Int} {it : CborValue}
    (h : makeCredentialMember MC key it = .ok MC') (hMC : MC.Parsed) : MC'.Parsed := by
  unfold makeCredentialMember at h
  split_ifs at h with h₁ h₂ h₃ h₄ h₅ h₆ h₇ h₈ h₉
  · obtain ⟨_, -, h⟩ := except_bind_eq_ok.mp h
    obtain rfl := except_pure_eq_ok.mp h
    exact ⟨hMC.extensions, hMC.algorithm, hMC.excludeList⟩
  · obtain ⟨_, -, h⟩ := except_bind_eq_ok.mp h
    obtain rfl := except_pure_eq_ok.mp h
    exact ⟨hMC.extensions, hMC.algorithm, hMC.excludeList⟩
  · obtain ⟨_, -, h⟩ := except_bind_eq_ok.mp h
    obtain rfl := except_pure_eq_ok.mp h
    exact ⟨hMC.extensions, hMC.algorithm, hMC.excludeList⟩
  · obtain ⟨alg, halg, h⟩ := except_bind_eq_ok.mp h
    obtain rfl := except_pure_eq_ok.mp h
    refine ⟨hMC.extensions, fun _ => ⟨rfl, ?_⟩, hMC.excludeList⟩
    unfold findSupportedPubkeyCredentialParam at halg
    obtain ⟨_, -, halg⟩ := except_bind_eq_ok.mp halg
    obtain ⟨_, -, halg⟩ := except_bind_eq_ok.mp halg
    obtain ⟨_, -, halg⟩ := except_bind_eq_ok.mp halg
    obtain ⟨_, -, halg⟩ := except_bind_eq_ok.mp halg
    obtain ⟨_, -, halg⟩ := except_bind_eq_ok.mp halg
    rcases firstSupported_ok halg with rfl | rfl
    · exact .inl rfl
    · exact .inr rfl
  · obtain ⟨_, hlist, h⟩ := except_bind_eq_ok.mp h
    obtain ⟨arr, harr, h⟩ := except_bind_eq_ok.mp h
    obtain ⟨size, hsize, h⟩ := except_bind_eq_ok.mp h
    obtain rfl := except_pure_eq_ok.mp h
    refine ⟨hMC.extensions, hMC.algorithm, ?_⟩
    rintro arr' ⟨⟩
    unfold parseExcludeList at hlist
    obtain ⟨_, -, hlist⟩ := except_bind_eq_ok.mp hlist
    obtain ⟨size', hsize', hlist⟩ := except_bind_eq_ok.mp hlist
    obtain ⟨arr'', harr', hlist⟩ := except_bind_eq_ok.mp hlist
    obtain rfl := Except.ok.inj (harr.symm.trans harr')
    obtain rfl := Except.ok.inj (hsize.symm.trans hsize')
    exact ⟨_, hlist⟩
  · obtain ⟨_, -, h⟩ := except_bind_eq_ok.mp h
    obtain ⟨e, hext, h⟩ := except_bind_eq_ok.mp h
    obtain rfl := except_pure_eq_ok.mp h
    refine ⟨?_, hMC.algorithm, hMC.excludeList⟩
    unfold ctapExtensionsParseInput at hext
    obtain ⟨⟨map, len⟩, -, hext⟩ := except_bind_eq_ok.mp hext
    exact textMembers_keeps (fun _ _ _ _ => extensionsMember_ok) hext hMC.extensions
  · obtain ⟨_, -, h⟩ := except_bind_eq_ok.mp h
    obtain rfl := except_pure_eq_ok.mp h
    exact ⟨hMC.extensions, hMC.algorithm, hMC.excludeList⟩
  · obtain ⟨_, -, h⟩ := except_bind_eq_ok.mp h
    obtain rfl := except_pure_eq_ok.mp h
    exact ⟨hMC.extensions, hMC.algorithm, hMC.excludeList⟩
  · obtain ⟨_, -, h⟩ := except_bind_eq_ok.mp h
    obtain rfl := except_pure_eq_ok.mp h
    exact ⟨hMC.extensions, hMC.algorithm, hMC.excludeList⟩
  · obtain rfl := except_pure_eq_ok.mp h
    exact hMC

theorem parseMakeCredential_ok {request : List UInt8} {MC : MakeCredential}
    (h : parseMakeCredential request = .ok MC) : MC.Parsed := by
  unfold parseMakeCredential at h
  obtain ⟨it, -, h⟩ := except_bind_eq_ok.mp h
  obtain ⟨⟨map, len⟩, -, h⟩ := except_bind_eq_ok.mp h
  obtain ⟨⟨MC', it'⟩, hmembers, h⟩ := except_bind_eq_ok.mp h
  obtain rfl := except_pure_eq_ok.mp h
  refine intMembers_keeps (Q := MakeCredential.Parsed) (fun _ _ _ _ => makeCredentialMember_ok) hmembers ?_
  exact ⟨⟨by simp, by decide⟩, fun h => absurd h (by simp), fun _ h => absurd h (by simp)⟩

/-- A request that passed the checks. -/
structure Checked (P : Platform) (request : List UInt8) (w w' : World) (MC : MakeCredential) (h : Bytes 32)
    (l : Bytes 16) : Prop where
  parse : parseMakeCredential request = .ok MC
  params : MC.pubKeyCredParamsParsed = true
  hash : h = P.prims.sha256 MC.rp.bytes
  lookup : l = rpIdLookupOf P.prims w.keys h
  verify : verifyMakeCredentialAuth P MC w = .ok () w'

theorem selectByTouch_ne_ok {u : Unit} : ¬ selectByTouch w = .ok u w' := by
  intro h
  obtain ⟨_, w₁, -, h⟩ := bind_eq_ok.mp h
  rw [get_bind] at h
  exact failWith_ne_ok.mp h

theorem makeCredentialChecks_ok {request : List UInt8} {MC : MakeCredential} {h : Bytes 32} {l : Bytes 16}
    (hok : makeCredentialChecks P request w = .ok (MC, h, l) w') : Checked P request w w' MC h l := by
  unfold makeCredentialChecks at hok
  rw [ctapCheck_bind_eq_ok] at hok
  obtain ⟨MC', hparse, hok⟩ := hok
  rw [bind_eq_ok] at hok
  obtain ⟨⟨⟩, w₁, hempty, hok⟩ := hok
  obtain ⟨-, rfl⟩ : MC'.pinUvAuthParam.empty ≠ true ∧ w₁ = w := by
    rcases onlyIf_eq_ok.mp hempty with ⟨-, h⟩ | h
    · exact absurd h selectByTouch_ne_ok
    · exact h
  obtain ⟨hparams, hok⟩ := failIf_bind_eq_ok.mp hok
  obtain ⟨⟨⟩, w₂, hverify, hok⟩ := bind_eq_ok.mp hok
  obtain ⟨-, hok⟩ := failIf_bind_eq_ok.mp hok
  rw [get_bind] at hok
  dsimp only [ctapDeriveRpIdInfo] at hok
  rw [get_bind, get_bind] at hok
  obtain ⟨-, hok⟩ := failIf_bind_eq_ok.mp hok
  obtain ⟨heq, rfl⟩ := pure_eq_ok.mp hok
  obtain ⟨rfl, heq⟩ := Prod.mk.inj heq
  obtain ⟨rfl, rfl⟩ := Prod.mk.inj heq
  have hkeys : w'.keys = w₁.keys := (touches_verifyMakeCredentialAuth .keys (by decide)).ok hverify
  exact ⟨hparse, (not_not.mp hparams).2.2.2, rfl, by rw [hkeys], hverify⟩

/-- The checks leave alone what `verifyMakeCredentialAuth` does. -/
theorem Checked.kept {request : List UInt8} {MC : MakeCredential} {h : Bytes 32} {l : Bytes 16}
    (hc : Checked P request w w' MC h l) {p : Part} (hp : p ∉ [Part.inputs, .token, .verified, .usage]) :
    p.view w' = p.view w := (touches_verifyMakeCredentialAuth p hp).ok hc.verify

end Parsed

/-! ## The size of the authenticator data -/

section Sizes

variable {x y : Bytes 32} {alg : CoseAlg}

/-- The size of a public key. -/
def coseKeySize (alg : CoseAlg) : Nat := if alg = .eddsa then 42 else 77

theorem appends_coseKeyAdd_es256 :
    ∃ d, d.length = coseKeySize .es256 ∧ Appends 1 d (coseKeyAdd · x y .es256) := by
  refine ⟨_, ?_, (Appends.map (k := 5) (appends_int (v := 1) |>.andThen <| appends_int (v := 2) |>.andThen <|
    appends_int (v := 3) |>.andThen <| appends_int (v := -7) |>.andThen <| appends_int (v := -1) |>.andThen <|
    appends_int (v := 1) |>.andThen <| appends_int (v := -2) |>.andThen <|
    appends_byteString (s := x.toList) |>.andThen <| appends_int (v := -3) |>.andThen <|
    appends_byteString (s := y.toList))).congr fun e => ?_⟩
  · simp [length_numberBytes, intBytes, coseKeySize]
  · simp only [bind_assoc]
    rfl

theorem appends_coseKeyAdd_eddsa :
    ∃ d, d.length = coseKeySize .eddsa ∧ Appends 1 d (coseKeyAdd · x y .eddsa) := by
  refine ⟨_, ?_, (Appends.map (k := 4) (appends_int (v := 1) |>.andThen <| appends_int (v := 1) |>.andThen <|
    appends_int (v := 3) |>.andThen <| appends_int (v := -8) |>.andThen <| appends_int (v := -1) |>.andThen <|
    appends_int (v := 6) |>.andThen <| appends_int (v := -2) |>.andThen <|
    appends_byteString (s := x.toList))).congr fun e => ?_⟩
  · simp [length_numberBytes, intBytes, coseKeySize]
  · simp only [bind_assoc]
    rfl

/-- The size of a map with the outputs of the extensions of authenticatorMakeCredential. -/
def extensionSize (requested protect : Bool) : Nat :=
  if requested = false ∧ protect = false then 0 else 1 + 13 * requested.toNat + 13 * protect.toNat

section Items

variable {d : List UInt8} {f : Encoder → EncM Encoder}

/-- What is written to an empty buffer that is large enough. -/
theorem appends_init (h : Appends 1 d f) {size : Nat} (hsize : d.length ≤ size) :
    ∃ e, f (Encoder.init size) = .ok e ∧ e.out = d := ⟨_, h.eq_ok hsize, rfl⟩

theorem appends_credProtect {level : UInt8} (hlevel : level.toNat ≤ 3) :
    ∃ d, d.length = 13 ∧ Appends 2 d fun e => e.textString (ascii "credProtect") >>= (·.int level.toNat) := by
  refine ⟨_, ?_, appends_textString.andThen appends_int⟩
  have hbytes : (intBytes level.toNat).length = 1 := by
    unfold intBytes
    rw [if_pos (by omega), length_numberBytes, if_pos (by omega)]
  rw [List.length_append, hbytes]
  rfl

theorem appends_hmacSecret :
    ∃ d, d.length = 13 ∧ Appends 2 d fun e => e.textString (ascii "hmac-secret") >>= (·.boolean true) :=
  ⟨_, rfl, appends_textString.andThen appends_boolean⟩

end Items

/-- The map without an encrypted output. -/
theorem encodeExtensions_none {requested : Bool} {credProtect : Option UInt8}
    (hlevel : ∀ level ∈ credProtect, level.toNat ≤ 3) (hsome : ¬ (requested = false ∧ credProtect = none))
    {size : Nat} (hsize : 27 ≤ size) :
    ∃ out, encodeExtensions none requested credProtect size = .ok out ∧
      out.length = extensionSize requested credProtect.isSome := by
  obtain ⟨dh, hdh, hhmac⟩ := appends_hmacSecret
  have hhead : ∀ k < 24, (numberBytes k 5).length = 1 := fun k hk => by rw [length_numberBytes, if_pos hk]
  -- the map as a container around its items
  have hrun {f : Encoder → EncM Encoder} {k : Nat} {d : List UInt8} (hk : k < 24) (hf : Appends (2 * k) d f)
      (hd : d.length ≤ 26)
      (heq : encodeExtensions none requested credProtect size
        = (((Encoder.init size).createMap k >>= fun inner => f inner >>= (Encoder.init size).close)
            >>= fun e => pure e.out)) :
      ∃ out, encodeExtensions none requested credProtect size = .ok out ∧ out.length = 1 + d.length := by
    have hlen : (numberBytes k 5 ++ d).length = 1 + d.length := by rw [List.length_append, hhead k hk]
    obtain ⟨e, he, hout⟩ := appends_init (Appends.map hf) (show (numberBytes k 5 ++ d).length ≤ size by omega)
    refine ⟨e.out, ?_, by rw [hout, hlen]⟩
    rw [heq, he]
    rfl
  cases credProtect with
  | none =>
    cases requested with
    | false => exact absurd ⟨rfl, rfl⟩ hsome
    | true =>
      obtain ⟨out, hok, hlen⟩ := hrun (k := 1) (by omega) hhmac (by omega) (by
        unfold encodeExtensions
        simp only [bind_assoc]
        rfl)
      exact ⟨out, hok, by rw [hlen, hdh]; rfl⟩
  | some level =>
    obtain ⟨dp, hdp, hprotect⟩ := appends_credProtect (hlevel level rfl)
    cases requested with
    | false =>
      obtain ⟨out, hok, hlen⟩ := hrun (k := 1) (by omega) hprotect (by omega) (by
        unfold encodeExtensions
        simp only [bind_assoc]
        rfl)
      exact ⟨out, hok, by rw [hlen, hdp]; rfl⟩
    | true =>
      obtain ⟨out, hok, hlen⟩ := hrun (k := 2) (by omega) (hprotect.andThen hhmac)
        (by rw [List.length_append]; omega) (by
          unfold encodeExtensions
          simp only [bind_assoc]
          rfl)
      exact ⟨out, hok, by rw [hlen, List.length_append, hdp, hdh]; rfl⟩

end Sizes

/-! ## The authenticator data -/

section AuthData

variable {rp : RpId} {h : Bytes 32} {l : Bytes 16} {n : UInt32} {c : CredInfo} {e : Extensions}

theorem ends_of_raises {α : Type} {m : CtapM α} (hm : Raises (fun _ => False) m) :
    Ends m w (fun a w' => m w = .ok a w') fun _ _ => False :=
  ends_of_runs (fun _ _ hok => hok) fun e w' herr => hm w e w' herr

/-- The ID of a new credential. -/
def newCredentialId (P : Platform) (k : SessionKeys) (l : Bytes 16) (nonce : Bytes 16) (n : UInt32)
    (c : CredInfo) (e : Extensions) : CredentialId :=
  let metadata := ctapXcryptBuf P.prims k nonce (newMetadata c e)
  CredentialId.make 0 l nonce metadata n (ctapMakeAuthTag P.prims k 0 l nonce metadata n)

/-- The store of resident keys. -/
def World.SameStore (w w' : World) : Prop := w'.rkFiles = w.rkFiles ∧ w'.rkStored = w.rkStored

theorem Touches.sameStore {S : List Part} {α : Type} {m : CtapM α} (hm : Touches S m)
    (hf : Part.rkFiles ∉ S) (hs : Part.rkStored ∉ S) : w.SameStore (final m w) :=
  ⟨hm .rkFiles hf w, hm .rkStored hs w⟩

/-- A record is stored unless the store is full. -/
theorem storeResidentKey_ends {id : CredentialId} {user : UserEntity} :
    Ends (storeResidentKey P rp h id user) w (fun _ _ => True)
      fun e w' => w' = w ∧ e = .status .keyStoreFull := by
  unfold storeResidentKey
  rw [ends_bind, ends_get, ends_bind, ends_failIf]
  refine ⟨fun _ => ⟨rfl, rfl⟩, fun _ => ?_⟩
  have hrest : Raises (fun _ => False) (do
      let rkNonce ← ctapGenerateRng 16
      ctapOverwriteRk P (makeResidentKey P (← get).keys id user h rp.bytes rkNonce)) :=
    raises_ctapGenerateRng.bind fun _ => raises_get.bind fun _ => raises_ctapOverwriteRk
  exact (ends_of_raises hrest).mono (fun _ _ _ => trivial) fun _ _ hf => hf.elim

/-- The public key of a credential. -/
theorem coseKeyGenerate_yields {data : List UInt8} {alg : CoseAlg} (halg : alg = .es256 ∨ alg = .eddsa) :
    Yields (fun e => e.out.length = coseKeySize alg)
      (coseKeyGenerate P (Encoder.init 198) data .pubKey (some alg)) := by
  have hadd {d : List UInt8} {f : Encoder → EncM Encoder} (hd : d.length = coseKeySize alg) (hf : Appends 1 d f) :
      ((f (Encoder.init 198)).toOption.getD (Encoder.init 198)).out.length = coseKeySize alg := by
    have hsize : d.length ≤ 198 := by
      rw [hd]
      rcases halg with rfl | rfl <;> decide
    obtain ⟨e, he, hout⟩ := appends_init hf hsize
    rw [he]
    exact (congrArg List.length hout).trans hd
  unfold coseKeyGenerate
  rw [if_neg (by simp)]
  rcases halg with rfl | rfl
  · refine yields_bind fun pub => yields_pure ?_
    obtain ⟨d, hd, hw⟩ := appends_coseKeyAdd_es256 (x := pub.slice 0 32) (y := pub.slice 32 32)
    exact hadd hd hw
  · refine yields_bind fun w => yields_pure ?_
    obtain ⟨d, hd, hw⟩ := appends_coseKeyAdd_eddsa
      (x := P.prims.ed25519PublicKey (cryptoDeriveCredentialKey P.prims w.keys data)) (y := Bytes.zero 32)
    exact hadd hd hw

/-- A new credential. -/
theorem makeAttestedData_ends {alg : CoseAlg} (htype : c.publicKeyCredentialType = .pubKey)
    (hcose : c.coseAlgorithmIdentifier = some alg) (halg : alg = .es256 ∨ alg = .eddsa) :
    Ends (makeAttestedData P rp h l n c e) w
      (fun a _ => ∃ (nonce : Bytes 16) (cose : List UInt8), cose.length = coseKeySize alg ∧
        a = aaguid ++ [0, 57] ++ (newCredentialId P w.keys l nonce n c e).raw.toList ++ cose)
      fun err w' => w.SameStore w' ∧ err = .status .keyStoreFull ∧ c.rk = true := by
  unfold makeAttestedData
  rw [ends_bind, ends_get, ends_bind]
  let w₁ : World := { w with rngPos := w.rngPos + 16 }
  let nonce : Bytes 16 := streamBytes w.inputs.rng.byte w.rngPos 16
  refine ends_of_ok (show ctapGenerateRng 16 w = .ok nonce w₁ from rfl) ?_
  rw [ends_bind, ends_onlyIf]
  have hrest : ∀ w₂ : World, Ends (do
      let coseKey ← coseKeyGenerate P (Encoder.init (310 - 112)) (newCredentialId P w.keys l nonce n c e).raw.toList
        c.publicKeyCredentialType c.coseAlgorithmIdentifier
      pure (aaguid ++ [0, 57] ++ (newCredentialId P w.keys l nonce n c e).raw.toList ++ coseKey.out)) w₂
      (fun a _ => ∃ (nonce : Bytes 16) (cose : List UInt8), cose.length = coseKeySize alg ∧
        a = aaguid ++ [0, 57] ++ (newCredentialId P w.keys l nonce n c e).raw.toList ++ cose)
      fun err w' => w.SameStore w' ∧ err = .status .keyStoreFull ∧ c.rk = true := by
    intro w₂
    rw [ends_bind]
    refine (ends_of_raises raises_coseKeyGenerate).mono (fun key w₃ hkey => ?_) fun _ _ hf => hf.elim
    rw [htype, hcose] at hkey
    exact ⟨nonce, key.out, coseKeyGenerate_yields halg _ _ _ hkey, rfl⟩
  refine ⟨fun hrk => ?_, fun _ => hrest w₁⟩
  refine storeResidentKey_ends.mono (fun _ w₂ _ => hrest w₂) ?_
  rintro err w₂ ⟨rfl, rfl⟩
  exact ⟨⟨rfl, rfl⟩, rfl, hrk⟩

/-- The user touches the device whenever it waits. -/
def World.AlwaysTouched (w : World) : Prop := ∀ i, w.inputs.presence i = true

theorem ctap2UserPresenceTest_ends : Ends ctap2UserPresenceTest w
    (fun r _ => (r = .ok ∨ r = .error .userPresenceDisabled) ∨ r = .error .operationDenied ∧ ¬ w.AlwaysTouched)
    fun _ _ => False := by
  unfold ctap2UserPresenceTest ctapUserPresenceTest
  simp only [ends_bind, ends_get, ends_ite]
  refine ⟨fun _ => .inl (.inr rfl), fun _ => ?_⟩
  rw [ends_modifyGet, ends_emit, ends_pure]
  cases hp : w.inputs.presence w.presencePos with
  | true => exact .inl (.inl rfl)
  | false => exact .inr ⟨rfl, fun ht => absurd (ht w.presencePos) (by simp [hp])⟩

theorem makeAuthDataHeader_ends : Ends (makeAuthDataHeader .scratch h) w
    (fun _ w' => w.SameStore w' ∧ w'.keys = w.keys)
    fun err w' => w.SameStore w' ∧ err = .status .operationDenied ∧ ¬ w.AlwaysTouched := by
  have htouch := touches_makeAuthDataHeader .scratch (h := h)
  have herror : Ends (makeAuthDataHeader .scratch h) w (fun _ _ => True)
      fun err _ => err = .status .operationDenied ∧ ¬ w.AlwaysTouched := by
    unfold makeAuthDataHeader
    rw [ends_bind, ends_get, ends_bind]
    refine ends_of_ok (show putHead .scratch _ w = .ok () w from rfl) ?_
    rw [ends_bind]
    refine (ends_of_raises raises_ctapAuthDataUpdateCount).mono (fun count w₁ hcount => ?_) fun _ _ hf => hf.elim
    have hinputs : w₁.inputs = w.inputs :=
      congrArg (·.2.2.2) ((touches_ctapAuthDataUpdateCount .fixed (by decide)).ok hcount)
    rw [ends_bind]
    refine ends_of_ok (show putHead .scratch _ w₁ = .ok () w₁ from rfl) ?_
    rw [ends_bind]
    refine ctap2UserPresenceTest_ends.mono ?_ fun _ _ hf => hf.elim
    rintro up w₂ ((rfl | rfl) | ⟨rfl, htouched⟩)
    · trivial
    · trivial
    · exact ⟨rfl, fun ht => htouched fun i => hinputs ▸ ht i⟩
  refine ends_of_runs (fun r w' hok => ?_) fun err w' herr => ⟨?_, herror.error herr⟩
  · exact ⟨⟨(htouch .rkFiles (by decide)).ok hok, (htouch .rkStored (by decide)).ok hok⟩,
      (htouch .keys (by decide)).ok hok⟩
  · exact ⟨(htouch .rkFiles (by decide)).error herr, (htouch .rkStored (by decide)).error herr⟩

/-- The size of the authenticator data with the outputs of the extensions. -/
def MakeCredential.authDataSize (MC : MakeCredential) : Nat :=
  112 + coseKeySize (if MC.credInfo.coseAlgorithmIdentifier = some .eddsa then .eddsa else .es256)
    + extensionSize (MC.extensions.hmacSecretPresent = .requested) (1 ≤ MC.extensions.credProtect)

theorem MakeCredential.authDataSize_le (MC : MakeCredential) : MC.authDataSize ≤ 216 := by
  unfold MakeCredential.authDataSize coseKeySize extensionSize
  cases (MC.extensions.hmacSecretPresent = .requested : Bool) <;>
    cases (1 ≤ MC.extensions.credProtect : Bool) <;> split <;> split <;> simp

/-- The outputs of the extensions of a request that was parsed. -/
theorem ctapExtensionsEncodeOutput_ends (he : e.OfMakeCredential) {id : CredentialId} {size : Nat}
    (hsize : 27 ≤ size) : Ends (ctapExtensionsEncodeOutput P e id size) w
      (fun out _ => out.length = extensionSize (e.hmacSecretPresent = .requested) (1 ≤ e.credProtect))
      fun _ _ => False := by
  have hle : e.credProtect ≤ 3 := UInt8.le_iff_toNat_le.mpr he.credProtect
  have hprotect : (if 1 ≤ e.credProtect ∧ e.credProtect ≤ 3 then some e.credProtect else none)
      = if 1 ≤ e.credProtect then some e.credProtect else none := by simp only [hle, and_true]
  unfold ctapExtensionsEncodeOutput hmacSecretOutput?
  rw [if_neg he.notParsed, ends_bind, ends_pure]
  dsimp only
  rw [hprotect, ends_ite]
  refine ⟨fun hnone => ?_, fun hsome => ?_⟩
  · have hlow : ¬ 1 ≤ e.credProtect := fun hlow => absurd hnone.2.2 (by simp [hlow])
    rw [ends_pure]
    simp [extensionSize, hlow, hnone.2.1]
  · have hlevel : ∀ level ∈ if 1 ≤ e.credProtect then some e.credProtect else none, level.toNat ≤ 3 := by
      intro level hlevel
      split at hlevel
      · obtain rfl := Option.some.inj hlevel
        exact he.credProtect
      · exact absurd hlevel (by simp)
    obtain ⟨out, hok, hlen⟩ := encodeExtensions_none hlevel (fun hboth => hsome ⟨rfl, hboth⟩) hsize
    rw [hok]
    show out.length = _
    rw [hlen]
    congr 1
    by_cases hlow : 1 ≤ e.credProtect <;> simp [hlow]

/-- The authenticator data of a registration: the credential ID behind the header, and the size. -/
theorem makeCredentialAuthData_ends {MC : MakeCredential} (hMC : MC.Parsed)
    (hparams : MC.pubKeyCredParamsParsed = true) :
    Ends (makeCredentialAuthData P MC h l) w
      (fun a _ => a.length = MC.authDataSize ∧ ∃ (n : UInt32) (nonce : Bytes 16),
        (a.drop 55).take 57 = (newCredentialId P w.keys l nonce n MC.credInfo MC.extensions).raw.toList)
      fun err w' => w.SameStore w' ∧ (err = .status .operationDenied ∧ ¬ w.AlwaysTouched ∨
        err = .status .keyStoreFull ∧ MC.credInfo.rk = true) := by
  obtain ⟨htype, hcose⟩ := hMC.algorithm hparams
  obtain ⟨alg, hsome, halg⟩ : ∃ alg, MC.credInfo.coseAlgorithmIdentifier = some alg ∧
      (alg = .es256 ∨ alg = .eddsa) := by
    rcases hcose with hcose | hcose
    · exact ⟨_, hcose, .inl rfl⟩
    · exact ⟨_, hcose, .inr rfl⟩
  have hkey : coseKeySize (if MC.credInfo.coseAlgorithmIdentifier = some .eddsa then .eddsa else .es256)
      = coseKeySize alg := by
    rw [hsome]
    rcases halg with rfl | rfl <;> rfl
  have hhead : ∀ head : AuthDataHeader, head.bytes.length = 37 := fun head => by simp [AuthDataHeader.bytes]
  unfold makeCredentialAuthData ctapMakeAuthData
  rw [ends_bind, ends_bind]
  refine makeAuthDataHeader_ends.mono ?_ fun err w' herr => ⟨herr.1, .inl herr.2⟩
  rintro ⟨head, n⟩ w₁ ⟨hstore₁, hkeys₁⟩
  dsimp only
  rw [ends_bind]
  refine (makeAttestedData_ends htype hsome halg).mono ?_ fun err w' herr => ?_
  rotate_left
  · exact ⟨⟨herr.1.1.trans hstore₁.1, herr.1.2.trans hstore₁.2⟩, .inr herr.2⟩
  rintro attested w₂ ⟨nonce, cose, hlen, rfl⟩
  rw [ends_pure]
  dsimp only
  rw [ends_bind]
  refine (ends_of_raises raises_clearPinFlags).mono (fun _ w₃ _ => ?_) fun _ _ hf => hf.elim
  have hattested : (aaguid ++ [0, 57]
      ++ (newCredentialId P w₁.keys l nonce n MC.credInfo MC.extensions).raw.toList ++ cose).length
        = 75 + coseKeySize alg := by
    simp [aaguid, hlen]
    omega
  rw [ends_bind]
  have hsize : ∀ head' : AuthDataHeader, 27 ≤ 310 - (head'.bytes.length + (75 + coseKeySize alg)) := by
    intro head'
    rw [hhead]
    rcases halg with rfl | rfl <;> decide
  refine (ctapExtensionsEncodeOutput_ends hMC.extensions (by rw [hattested]; exact hsize _)).mono ?_
    fun _ _ hf => hf.elim
  intro ext w₄ hext
  have hbytes : ∀ head' : AuthDataHeader, (head'.bytes ++ (aaguid ++ [0, 57]
      ++ (newCredentialId P w₁.keys l nonce n MC.credInfo MC.extensions).raw.toList ++ cose) ++ ext).length
        = MC.authDataSize ∧ ∃ (n' : UInt32) (nonce' : Bytes 16), ((head'.bytes ++ (aaguid ++ [0, 57]
      ++ (newCredentialId P w₁.keys l nonce n MC.credInfo MC.extensions).raw.toList ++ cose) ++ ext).drop 55).take 57
        = (newCredentialId P w.keys l nonce' n' MC.credInfo MC.extensions).raw.toList := by
    intro head'
    constructor
    · rw [List.length_append, List.length_append, hattested, hext, hhead, MakeCredential.authDataSize, hkey]
      omega
    · refine ⟨n, nonce, ?_⟩
      rw [hkeys₁]
      have hpre : (head'.bytes ++ (aaguid ++ [0, 57])).length = 55 := by
        rw [List.length_append, hhead]
        rfl
      rw [List.append_assoc, List.append_assoc, List.append_assoc, ← List.append_assoc head'.bytes,
        List.drop_left' hpre, List.take_left' (by simp)]
  rw [ends_pure]
  split_ifs
  · exact hbytes _
  · exact hbytes _

end AuthData

/-! ## The attestation statement -/

section Statement

variable {α β : Type} {MC : MakeCredential} {map : Encoder} {authData sigder cert : List UInt8}

theorem encode_bind {x : EncM α} {f : α → EncM β} :
    encode (x >>= f) = encode x >>= fun a => encode (f a) := by
  cases x with
  | ok a => rfl
  | error e => rfl

theorem ends_encode_of_appends {n : Nat} {d : List UInt8} {f : Encoder → EncM Encoder} (hf : Appends n d f)
    {e : Encoder} : Ends (encode (f e)) w (fun e' w' => e' = e.put n d ∧ w' = w ∧ d.length ≤ e.room)
      fun err w' => err = .status .invalidCbor ∧ w' = w ∧ e.room < d.length := by
  by_cases hroom : e.room < d.length
  · rw [hf.eq_error hroom]
    exact ⟨rfl, rfl, hroom⟩
  · rw [hf.eq_ok (Nat.not_lt.mp hroom)]
    exact ⟨rfl, rfl, Nat.not_lt.mp hroom⟩

/-- What no request changes holds the attestation key and the certificate. -/
theorem attestation_of_fixed (h : w'.fixed = w.fixed) :
    w'.attestationKey = w.attestationKey ∧ attestationReadCert w' = attestationReadCert w := by
  refine ⟨congrArg (·.2.1) h, ?_⟩
  unfold attestationReadCert
  rw [show w'.attestationCert = w.attestationCert from congrArg (·.2.2.1) h]

theorem attestationReadCert_eq (hcert : w.attestationCert = some cert) (hlen : cert.length ≤ attestationMaxCertSize) :
    attestationReadCert w = some cert := by
  unfold attestationReadCert
  rw [hcert]
  simp [hlen]

/-- The size of a byte string with its header. -/
def byteStringSize (n : Nat) : Nat := (numberBytes n 2).length + n

theorem byteStringSize_mono {m n : Nat} (h : m ≤ n) : byteStringSize m ≤ byteStringSize n := by
  unfold byteStringSize
  rw [length_numberBytes, length_numberBytes]
  split_ifs <;> omega

/-- A packed statement with its key. -/
def packedStatement (sigder cert : List UInt8) (map : Encoder) : EncM Encoder :=
  map.int 3 >>= fun map => map.createMap 3 >>= fun stmtmap =>
    (stmtmap.textString (ascii "alg") >>= fun stmtmap => stmtmap.int CoseAlg.es256.toInt >>= fun stmtmap =>
      stmtmap.textString (ascii "sig") >>= fun stmtmap => stmtmap.byteString sigder >>= fun stmtmap =>
      stmtmap.textString (ascii "x5c") >>= fun stmtmap => stmtmap.createArray 1 >>= fun x5carr =>
        x5carr.byteString cert >>= stmtmap.close) >>= map.close

theorem appends_packedStatement : ∃ d, d.length = 16 + byteStringSize sigder.length + byteStringSize cert.length ∧
    Appends 2 d (packedStatement sigder cert) := by
  refine ⟨_, ?_, (appends_int (v := 3)).andThen (Appends.map (k := 3)
    (appends_textString (s := ascii "alg") |>.andThen <| appends_int (v := CoseAlg.es256.toInt) |>.andThen <|
      appends_textString (s := ascii "sig") |>.andThen <| appends_byteString (s := sigder) |>.andThen <|
      appends_textString (s := ascii "x5c") |>.andThen <|
      Appends.array (k := 1) (appends_byteString (s := cert))))⟩
  simp [length_numberBytes, intBytes, byteStringSize, CoseAlg.toInt, ascii]
  omega

/-- With an attestation key and a certificate that is read. -/
theorem cborEncodeAttestationStatement_packed (hkey : w.attestationKey.isSome = true)
    (hcert : attestationReadCert w = some cert) :
    cborEncodeAttestationStatement map sigder w = encode (packedStatement sigder cert map) w := by
  unfold cborEncodeAttestationStatement packedStatement
  rw [encode_bind]
  cases map.int 3 with
  | error e => rfl
  | ok e =>
    rw [bind_of_ok (show encode (.ok e) w = .ok e w from rfl), get_bind, if_pos hkey, get_bind, hcert]
    show _ = encode (_ >>= _) w
    simp only [encode_bind, bind_assoc]

/-- With an attestation key and no certificate that is read. -/
theorem cborEncodeAttestationStatement_unread (hkey : w.attestationKey.isSome = true)
    (hcert : attestationReadCert w = none) :
    Ends (cborEncodeAttestationStatement map sigder) w (fun _ _ => False)
      fun err _ => err = .status .other ∨ err = .status .invalidCbor := by
  unfold cborEncodeAttestationStatement
  rw [ends_bind]
  refine (ends_encode_of_appends (appends_int (v := 3))).mono ?_ fun err _ herr => .inr herr.1
  rintro e w₁ ⟨-, rfl, -⟩
  rw [ends_bind, ends_get, if_pos hkey, ends_bind, ends_get, hcert]
  exact .inl rfl

/-- An empty statement with its key. -/
def noneStatement (map : Encoder) : EncM Encoder :=
  map.int 3 >>= fun map => map.createMap 0 >>= fun stmtmap => pure stmtmap >>= map.close

theorem appends_noneStatement : Appends 2 [3, 0xa0] noneStatement :=
  (appends_int (v := 3)).andThen (Appends.map (k := 0) appends_nothing)

/-- Without an attestation key. -/
theorem cborEncodeAttestationStatement_none (hkey : w.attestationKey.isSome = false) :
    cborEncodeAttestationStatement map sigder w = encode (noneStatement map) w := by
  unfold cborEncodeAttestationStatement noneStatement
  rw [encode_bind]
  cases map.int 3 with
  | error e => rfl
  | ok e =>
    show (if w.attestationKey.isSome then _ else _ : CtapM Encoder) w = _
    rw [if_neg (by simp [hkey])]
    show _ = encode (_ >>= _) w
    simp only [encode_bind, pure_bind]

/-- The authenticator data in the response, with their key. -/
def authDataBytes (authData : List UInt8) : List UInt8 :=
  intBytes 2 ++ (numberBytes authData.length 2 ++ authData)

theorem length_authDataBytes : (authDataBytes authData).length = 1 + byteStringSize authData.length := by
  unfold authDataBytes byteStringSize
  rw [List.length_append, List.length_append]
  rfl

theorem makeCredentialStatement_eq (hroom : 1 + byteStringSize authData.length ≤ map.room) :
    makeCredentialStatement P MC map authData w
      = (attestationSignature P authData MC.clientDataHash >>= fun sigder =>
          cborEncodeAttestationStatement (map.put 2 (authDataBytes authData)) sigder >>= fun map => do
            let encoder ← encode (responseEncoder.close map)
            pure encoder.out) w := by
  have hlen : (numberBytes authData.length 2 ++ authData).length = byteStringSize authData.length :=
    List.length_append
  unfold makeCredentialStatement
  rw [(appends_int (v := 2)).eq_ok (e := map) (by show 1 ≤ map.room; omega),
    bind_of_ok (show encode (.ok _) w = .ok _ w from rfl),
    (appends_byteString (s := authData)).eq_ok (e := map.put 1 (intBytes 2))
      (by rw [hlen]; show _ ≤ map.room - 1; omega), put_put,
    bind_of_ok (show encode (.ok _) w = .ok _ w from rfl)]
  rfl

/-- The end of the response map. -/
theorem ends_close {e : Encoder} (he : e.remaining = 1) {Q : List UInt8 → World → Prop} {E : Stop → World → Prop}
    (hQ : Q e.out w) : Ends (do let encoder ← encode (responseEncoder.close e); pure encoder.out) w Q E := by
  have hclose : ∃ e', responseEncoder.close e = .ok e' ∧ e'.out = e.out := by
    unfold close
    rw [if_neg (by simp [he])]
    exact ⟨_, rfl, rfl⟩
  obtain ⟨e', he', hout⟩ := hclose
  rw [he', ends_bind]
  refine ends_of_ok (show encode (.ok e') w = .ok e' w from rfl) ?_
  rw [ends_pure, hout]
  exact hQ

/-- The size of a packed response behind its format. -/
def packedSize (authData sigder cert : Nat) : Nat :=
  17 + byteStringSize authData + byteStringSize sigder + byteStringSize cert

/-- The end of a packed response. -/
theorem makeCredentialStatement_packed (hrem : map.remaining = 5) (hkey : w.attestationKey.isSome = true)
    (hcert : attestationReadCert w = some cert) (hroom : 1 + byteStringSize authData.length ≤ map.room) :
    Ends (makeCredentialStatement P MC map authData) w
      (fun out _ => ∃ sigder w₁, attestationSignature P authData MC.clientDataHash w = .ok sigder w₁ ∧
        packedSize authData.length sigder.length cert.length ≤ map.room ∧
        ∃ rest, out = map.out ++ (authDataBytes authData ++ rest))
      fun err _ => (∃ w₁, attestationSignature P authData MC.clientDataHash w = .error err w₁) ∨
        err = .status .invalidCbor ∧ ∃ sigder w₁,
          attestationSignature P authData MC.clientDataHash w = .ok sigder w₁ ∧
          map.room < packedSize authData.length sigder.length cert.length := by
  rw [ends_congr (makeCredentialStatement_eq hroom), ends_bind]
  refine ends_of_runs (fun sigder w₁ hsig => ?_) fun err w' herr => ?_
  rotate_left
  · exact .inl ⟨w', herr⟩
  obtain ⟨hkey₁, hcert₁⟩ := attestation_of_fixed ((touches_attestationSignature .fixed (by decide)).ok hsig)
  rw [← hkey₁] at hkey
  rw [← hcert₁] at hcert
  obtain ⟨d, hd, hw⟩ := @appends_packedStatement sigder cert
  have hroom' : (map.put 2 (authDataBytes authData)).room = map.room - (1 + byteStringSize authData.length) := by
    rw [← length_authDataBytes]
    rfl
  rw [ends_bind, ends_congr (cborEncodeAttestationStatement_packed hkey hcert)]
  refine (ends_encode_of_appends hw).mono ?_ ?_
  · rintro e w₂ ⟨rfl, rfl, hfit⟩
    rw [put_put]
    refine ends_close (by show map.remaining - 4 = 1; omega) ⟨sigder, w₂, hsig, ?_, d, rfl⟩
    unfold packedSize
    omega
  · rintro err w₂ ⟨rfl, rfl, hfull⟩
    refine .inr ⟨rfl, sigder, w₂, hsig, ?_⟩
    unfold packedSize
    omega

/-- The end of a response without attestation. -/
theorem makeCredentialStatement_none (hrem : map.remaining = 5) (hkey : w.attestationKey = none)
    (hroom : 3 + byteStringSize authData.length ≤ map.room) :
    Ends (makeCredentialStatement P MC map authData) w
      (fun out _ => ∃ rest, out = map.out ++ (authDataBytes authData ++ rest)) fun _ _ => False := by
  have hsig : attestationSignature P authData MC.clientDataHash w = .ok [] w := by
    unfold attestationSignature
    rw [get_bind, hkey]
    rfl
  have hroom' : (map.put 2 (authDataBytes authData)).room = map.room - (1 + byteStringSize authData.length) := by
    rw [← length_authDataBytes]
    rfl
  rw [ends_congr (makeCredentialStatement_eq (by omega)), ends_bind]
  refine ends_of_ok hsig ?_
  rw [ends_bind, ends_congr (cborEncodeAttestationStatement_none (by rw [hkey]; rfl)),
    appends_noneStatement.eq_ok (by show 2 ≤ _; omega), put_put]
  refine ends_of_ok (show encode (.ok _) w = .ok _ w from rfl) ?_
  exact ends_close (by show map.remaining - 4 = 1; omega) ⟨_, rfl⟩

/-- With an attestation key and no certificate that is read. -/
theorem makeCredentialStatement_unread (hkey : w.attestationKey.isSome = true)
    (hcert : attestationReadCert w = none) :
    Ends (makeCredentialStatement P MC map authData) w (fun _ _ => False) fun _ _ => True := by
  refine ends_of_runs (fun out w' hok => ?_) fun _ _ _ => trivial
  unfold makeCredentialStatement at hok
  rw [bind_eq_ok] at hok
  obtain ⟨map₁, w₁, h₁, hok⟩ := hok
  rw [bind_eq_ok] at hok
  obtain ⟨map₂, w₂, h₂, hok⟩ := hok
  rw [bind_eq_ok] at hok
  obtain ⟨sigder, w₃, h₃, hok⟩ := hok
  rw [bind_eq_ok] at hok
  obtain ⟨map₄, w₄, h₄, hok⟩ := hok
  have hfixed : w₃.fixed = w.fixed :=
    ((touches_attestationSignature .fixed (by decide)).ok h₃).trans
      (((touches_encode (S := []) .fixed (by decide)).ok h₂).trans
        ((touches_encode (S := []) .fixed (by decide)).ok h₁))
  obtain ⟨hkey₃, hcert₃⟩ := attestation_of_fixed hfixed
  exact (cborEncodeAttestationStatement_unread (by rw [hkey₃, hkey]) (by rw [hcert₃, hcert])).ok h₄

/-- What stands in the response before the authenticator data are made. -/
def formatEncoder (packed : Bool) : Encoder :=
  { out := [0xa3, 1] ++ if packed then 0x66 :: ascii "packed" else 0x64 :: ascii "none"
    room := if packed then 1191 else 1193
    remaining := 5 }

theorem touches_makeCredentialStatement {MC : MakeCredential} {map : Encoder} {a : List UInt8} :
    Touches [.inputs, .signatures] (makeCredentialStatement P MC map a) :=
  touches_encode.bind fun _ => touches_encode.bind fun _ => touches_attestationSignature.bind fun _ =>
    (touches_cborEncodeAttestationStatement.mono (by decide)).bind fun _ => touches_encode.bind fun _ => frames_pure

theorem makeCredentialResponse_eq {h : Bytes 32} {l : Bytes 16} :
    makeCredentialResponse P MC h l w = (makeCredentialAuthData P MC h l >>=
      makeCredentialStatement P MC (formatEncoder w.attestationKey.isSome)) w := by
  have hformat : ∀ packed : Bool, encode ((⟨[0xa3, 1], 1198, 6⟩ : Encoder).textString
      (if packed then ascii "packed" else ascii "none")) w = .ok (formatEncoder packed) w := by
    intro packed
    cases packed with
    | true => rfl
    | false => rfl
  unfold makeCredentialResponse
  rw [bind_of_ok (show encode (responseEncoder.createMap 3) w = .ok ⟨[0xa3], 1199, 7⟩ w from rfl),
    bind_of_ok (show encode (Encoder.int ⟨[0xa3], 1199, 7⟩ 1) w = .ok ⟨[0xa3, 1], 1198, 6⟩ w from rfl),
    get_bind, bind_of_ok (hformat _)]

theorem length_ctapEncodeDerSig_le (sig : Bytes 64) : (ctapEncodeDerSig sig).length ≤ 72 := by
  unfold ctapEncodeDerSig
  exact (List.length_take_le' _ _).trans (by simp)

/-- No signature is longer than the buffer for its DER form. -/
theorem attestationSignature_length {data : List UInt8} {hash : Bytes 32}
    (h : attestationSignature P data hash w = .ok sigder w') : sigder.length ≤ 72 := by
  unfold attestationSignature at h
  rw [get_bind] at h
  cases hk : w.attestationKey with
  | none =>
    rw [hk] at h
    obtain ⟨rfl, -⟩ := pure_eq_ok.mp h
    exact Nat.zero_le _
  | some kn =>
    obtain ⟨keyEnc, nonce⟩ := kn
    rw [hk] at h
    dsimp only at h
    unfold ctapSignData at h
    rw [if_neg (by simp), bind_eq_ok] at h
    obtain ⟨sig, w₁, -, h⟩ := h
    cases sig with
    | none => exact (throw_ne_ok.mp h).elim
    | some sig =>
      rw [bind_eq_ok] at h
      obtain ⟨_, w₂, -, h⟩ := h
      obtain ⟨rfl, -⟩ := pure_eq_ok.mp h
      exact length_ctapEncodeDerSig_le sig

/-- The authenticator data, with what the statement reads behind them. -/
theorem makeCredentialAuthData_keeps {h : Bytes 32} {l : Bytes 16} (hMC : MC.Parsed)
    (hparams : MC.pubKeyCredParamsParsed = true) :
    Ends (makeCredentialAuthData P MC h l) w
      (fun data w₁ => byteStringSize data.length ≤ 218 ∧ data.length = MC.authDataSize ∧ w₁.fixed = w.fixed)
      fun err w' => w.SameStore w' ∧ (err = .status .operationDenied ∧ ¬ w.AlwaysTouched ∨
        err = .status .keyStoreFull ∧ MC.credInfo.rk = true) := by
  refine ends_of_runs (fun data w₁ hok => ?_) fun err w' herr => (makeCredentialAuthData_ends hMC hparams).error herr
  have hlen := ((makeCredentialAuthData_ends hMC hparams).ok hok).1
  exact ⟨byteStringSize_mono (hlen ▸ MC.authDataSize_le), hlen,
    (touches_makeCredentialAuthData .fixed (by decide)).ok hok⟩

/-- A packed response fits if and only if its parts do. -/
theorem makeCredentialResponse_packed {h : Bytes 32} {l : Bytes 16} (hMC : MC.Parsed)
    (hparams : MC.pubKeyCredParamsParsed = true) (hkey : w.attestationKey.isSome = true)
    (hcert : attestationReadCert w = some cert) :
    Ends (makeCredentialResponse P MC h l) w
      (fun _ _ => ∃ data hash sigder w₁ w₂, attestationSignature P data hash w₁ = .ok sigder w₂ ∧
        w₁.fixed = w.fixed ∧ packedSize MC.authDataSize sigder.length cert.length ≤ 1191)
      fun err w' => w.SameStore w' ∧ (err = .status .operationDenied ∧ ¬ w.AlwaysTouched ∨
          err = .status .keyStoreFull ∧ MC.credInfo.rk = true) ∨
        (∃ data hash w₁ w₂, attestationSignature P data hash w₁ = .error err w₂) ∨
        err = .status .invalidCbor ∧ ∃ sigder : List UInt8, sigder.length ≤ 72 ∧
          1191 < packedSize MC.authDataSize sigder.length cert.length := by
  rw [ends_congr makeCredentialResponse_eq, hkey, ends_bind]
  refine (makeCredentialAuthData_keeps hMC hparams).mono ?_ fun err w' herr => .inl herr
  rintro data w₁ ⟨hsize, hlen, hfixed⟩
  obtain ⟨hkey₁, hcert₁⟩ := attestation_of_fixed hfixed
  have hroom : 1 + byteStringSize data.length ≤ (formatEncoder true).room := by
    show _ ≤ 1191
    omega
  refine (makeCredentialStatement_packed rfl (by rw [hkey₁, hkey]) (by rw [hcert₁, hcert]) hroom).mono ?_ ?_
  · rintro out w₂ ⟨sigder, w₃, hsig, hfit, _, -⟩
    rw [hlen] at hfit
    exact ⟨data, MC.clientDataHash, sigder, w₁, w₃, hsig, hfixed, hfit⟩
  · rintro err w₂ (⟨w₃, hsig⟩ | ⟨rfl, sigder, w₃, hsig, hfull⟩)
    · exact .inr (.inl ⟨data, MC.clientDataHash, w₁, w₃, hsig⟩)
    · rw [hlen] at hfull
      exact .inr (.inr ⟨rfl, sigder, attestationSignature_length hsig, hfull⟩)

/-- Without an attestation key the response is small. -/
theorem makeCredentialResponse_none {h : Bytes 32} {l : Bytes 16} (hMC : MC.Parsed)
    (hparams : MC.pubKeyCredParamsParsed = true) (hkey : w.attestationKey = none) :
    Ends (makeCredentialResponse P MC h l) w (fun _ _ => True)
      fun err w' => w.SameStore w' ∧ (err = .status .operationDenied ∧ ¬ w.AlwaysTouched ∨
        err = .status .keyStoreFull ∧ MC.credInfo.rk = true) := by
  rw [ends_congr makeCredentialResponse_eq, hkey, ends_bind]
  refine (makeCredentialAuthData_keeps hMC hparams).mono ?_ fun err w' herr => herr
  rintro data w₁ ⟨hsize, -, hfixed⟩
  have hkey₁ : w₁.attestationKey = none := (attestation_of_fixed hfixed).1.trans hkey
  have hroom : 3 + byteStringSize data.length ≤ (formatEncoder false).room := by
    show _ ≤ 1193
    omega
  exact (makeCredentialStatement_none rfl hkey₁ hroom).mono (fun _ _ _ => trivial) fun _ _ hf => hf.elim

end Statement

end TkeyFido2
