import TkeyFido2.Ctap.Curve
import TkeyFido2.Ctap.HmacSecret
import TkeyFido2.Ctap.MakeCredentialStages

/-!
# Key agreement keys

The platform's key comes with a request.  `cose_key_parse` wants the members to be there and does not look at the
values of kty and crv, `ecdh` and `uECC_shared_secret` take any pair of coordinates.  A key that is no point of
P-256 is refused only where something else stops the request first.
-/

namespace TkeyFido2

open Cbor Prog

/-! ## Shared secrets -/

/-- The type of `uECC_shared_secret`. -/
abbrev SharedSecret := Bytes 64 → Bytes 32 → (Nat → UInt8) → Option (Bytes 32) × Nat

/-- A platform with another `uECC_shared_secret`. -/
def Platform.withSharedSecret (P : Platform) (f : SharedSecret) : Platform :=
  { P with prims := { P.prims with eccSharedSecret := f } }

/-- A `uECC_shared_secret` that always returns 0. -/
def noSharedSecret : SharedSecret := fun _ _ _ => (none, 0)

/-- What `uECC_shared_secret` would return does not matter to a run: it is not called. -/
def ComputesNoSecret {α : Type} (m : Platform → CtapM α) (P : Platform) (w : World) : Prop :=
  ∀ f, m (P.withSharedSecret f) w = m P w

/-- A key of P-256 in the sense of COSE and of `uECC_valid_public_key`. -/
def CoseKey.ForP256 (key : CoseKey) : Prop := key.kty = 2 ∧ key.crv = 1 ∧ validPublicKey key.pubkey = true

instance (key : CoseKey) : Decidable key.ForP256 := inferInstanceAs (Decidable (_ ∧ _ ∧ _))

/-- A request with such a key may go on; with any other it is answered with an error, and no secret is computed. -/
def RefusesInvalid {α : Type} (m : Platform → CtapM α) (P : Platform) (w : World) (key : CoseKey) : Prop :=
  ¬ key.ForP256 → (∃ e w', m P w = .error (.status e) w') ∧ ComputesNoSecret m P w

/-! ## Where a secret is computed -/

/-- A run that calls `uECC_shared_secret` if `reach` holds, and ends with an error before if not. -/
structure Reaches {α : Type} (m : Platform → CtapM α) (P : Platform) (w : World) (reach : Prop) : Prop where
  computes : reach → ∃ w', m (P.withSharedSecret noSharedSecret) w = .error (.halt .exit) w'
  stops : ¬ reach → ∃ e w', ∀ f, m (P.withSharedSecret f) w = .error (.status e) w'

section Reaches

variable {α β : Type} {P : Platform} {w w₁ : World} {m : Platform → CtapM α} {reach reach' : Prop}

theorem Reaches.refusesInvalid_iff (h : Reaches m P w reach) (key : CoseKey) :
    RefusesInvalid m P w key ↔ key.ForP256 ∨ ¬ reach := by
  constructor
  · intro hrefuses
    by_contra hno
    obtain ⟨hkey, hreach⟩ := not_or.mp hno
    obtain ⟨⟨e, w', herror⟩, hsame⟩ := hrefuses hkey
    obtain ⟨w'', hexit⟩ := h.computes (not_not.mp hreach)
    rw [hsame noSharedSecret, herror] at hexit
    exact Stop.noConfusion (EStateM.Result.error.inj hexit).1
  · rintro (hkey | hreach) hno
    · exact absurd hkey hno
    · obtain ⟨e, w', hstop⟩ := h.stops hreach
      have hrun : m P w = .error (.status e) w' := hstop P.prims.eccSharedSecret
      exact ⟨⟨e, w', hrun⟩, fun f => (hstop f).trans hrun.symm⟩

theorem Reaches.congr (h : Reaches m P w reach) (hiff : reach ↔ reach') : Reaches m P w reach' :=
  propext hiff ▸ h

theorem reaches_failWith {s : CtapError} : Reaches (fun _ => (failWith s : CtapM α)) P w False :=
  ⟨False.elim, fun _ => ⟨s, w, fun _ => rfl⟩⟩

theorem reaches_ecdh {key : Bytes 64} {proto : UInt8} : Reaches (fun P => ecdh P key proto) P w True :=
  ⟨fun _ => ⟨_, rfl⟩, fun h => absurd trivial h⟩

theorem Reaches.bind (h : Reaches m P w reach) (k : Platform → α → CtapM β) :
    Reaches (fun P => m P >>= k P) P w reach := by
  constructor
  · intro hreach
    obtain ⟨w', hexit⟩ := h.computes hreach
    exact ⟨w', bind_eq_error.mpr (.inl hexit)⟩
  · intro hreach
    obtain ⟨e, w', hstop⟩ := h.stops hreach
    exact ⟨e, w', fun f => bind_eq_error.mpr (.inl (hstop f))⟩

/-- A first part that does not depend on the platform. -/
theorem Reaches.after {pre : CtapM β} {b : β} {m : β → Platform → CtapM α} (hpre : pre w = .ok b w₁)
    (h : Reaches (m b) P w₁ reach) : Reaches (fun P => pre >>= fun b => m b P) P w reach := by
  constructor
  · intro hreach
    obtain ⟨w', hexit⟩ := h.computes hreach
    exact ⟨w', (bind_of_ok hpre).trans hexit⟩
  · intro hreach
    obtain ⟨e, w', hstop⟩ := h.stops hreach
    exact ⟨e, w', fun f => (bind_of_ok hpre).trans (hstop f)⟩

theorem reaches_failIf {c : Prop} [Decidable c] {s : CtapError} (h : ¬ c → Reaches m P w reach) :
    Reaches (fun P => failIf c s >>= fun _ => m P) P w (¬ c ∧ reach) := by
  by_cases hc : c
  · refine ⟨fun hreach => absurd hc hreach.1, fun _ => ⟨s, w, fun f => ?_⟩⟩
    refine bind_eq_error.mpr (.inl ?_)
    rw [failIf, if_pos hc]
    rfl
  · have hpass : failIf c s w = .ok () w := by
      rw [failIf, if_neg hc]
      rfl
    exact (Reaches.after hpass (h hc)).congr (and_iff_right hc).symm

theorem reaches_ite {c : Prop} [Decidable c] {m' : Platform → CtapM α} (h : c → Reaches m P w reach)
    (h' : ¬ c → Reaches m' P w reach') :
    Reaches (fun P => if c then m P else m' P) P w (c ∧ reach ∨ ¬ c ∧ reach') := by
  by_cases hc : c
  · simp only [if_pos hc]
    exact (h hc).congr (by tauto)
  · simp only [if_neg hc]
    exact (h' hc).congr (by tauto)

/-- An error that is answered with its status. -/
def Stop.IsStatus (e : Stop) : Prop := ∃ s, e = .status s

/-- A first part that calls no `uECC_shared_secret` itself and fails with statuses only. -/
theorem reaches_checks {pre : Platform → CtapM β} {m : β → Platform → CtapM α}
    (hpre : ∀ f, pre (P.withSharedSecret f) = pre P) (hraises : Raises Stop.IsStatus (pre P))
    (hok : ∀ b w₁, pre P w = .ok b w₁ → Reaches (m b) P w₁ True) :
    Reaches (fun P => pre P >>= fun b => m b P) P w (∃ b w₁, pre P w = .ok b w₁) := by
  constructor
  · rintro ⟨b, w₁, hrun⟩
    obtain ⟨w', hexit⟩ := (hok b w₁ hrun).computes trivial
    exact ⟨w', (bind_of_ok (by rw [hpre, hrun])).trans hexit⟩
  · intro hno
    cases hrun : pre P w with
    | ok b w₁ => exact absurd ⟨b, w₁, hrun⟩ hno
    | error e w₁ =>
      obtain ⟨s, rfl⟩ := hraises _ _ _ hrun
      exact ⟨s, w₁, fun f => bind_eq_error.mpr (.inl (by rw [hpre, hrun]))⟩

end Reaches

/-! ## authenticatorClientPIN -/

/-- What setPIN and changePIN need besides a key. -/
def ClientPin.HasNewPin (CP : ClientPin) : Prop :=
  CP.newPinEncSize ≠ 0 ∧ CP.pinUvAuthParam.len ≠ 0 ∧ ¬ CP.newPinEncSize < 64

/-- What the sub-commands that check for lock out need before they compute a secret. -/
def ClientPin.PassesUnlocked (CP : ClientPin) : Prop :=
  CP.subCommand = 4 ∧ CP.HasNewPin ∨
    CP.subCommand = 5 ∧ ¬ CP.permissionsPresent ∧ CP.permissions = 0 ∧ CP.rpId.size = 0 ∨
    CP.subCommand = 9 ∧ CP.permissionsPresent ∧ CP.permissions ≠ 0 ∧
      (CP.permissions &&& permissionsDefinedMask) &&& permissionsUnsupportedMask = 0 ∧
      ((CP.permissions &&& permissionsDefinedMask) &&& (permissionMc ||| permissionGa) ≠ 0 → CP.rpId.size ≠ 0)

/-- The checks of `ctap_client_pin` before it computes a secret; none of them is about the key. -/
def ClientPin.Passes (CP : ClientPin) (w : World) : Prop :=
  (CP.pinProtocol = 1 ∨ CP.pinProtocol = 2) ∧ CP.keyAgreementPresent ∧
    (CP.subCommand = 3 ∧ ¬ clientPinIsSet w ∧ CP.HasNewPin ∨
      clientPinIsSet w ∧ ¬ clientPinIsLocked w ∧ ¬ clientPinIsBootLocked w ∧ CP.pinHashEncPresent ∧
        CP.PassesUnlocked)

section ClientPin

variable {P : Platform} {w : World} {CP : ClientPin}

theorem reaches_updatePinIfVerified {newPinEnc : Bytes 80} {len : UInt8} {key : Bytes 64} {param : Bytes 32}
    {pinHashEnc : Option (Bytes 32)} {proto : UInt8} :
    Reaches (fun P => updatePinIfVerified P newPinEnc len key param pinHashEnc proto) P w (¬ len < 64) :=
  (reaches_failIf fun _ => reaches_ecdh.bind _).congr (and_iff_left trivial)

theorem reaches_setPin : Reaches (fun P => setPin P CP) P w
    (CP.keyAgreementPresent ∧ ¬ clientPinIsSet w ∧ CP.HasNewPin) := by
  have hrun : Reaches (fun P => setPin P CP) P w _ := reaches_failIf fun _ =>
    Reaches.after run_get (reaches_failIf fun _ => reaches_updatePinIfVerified.bind _)
  refine hrun.congr ?_
  unfold ClientPin.HasNewPin
  tauto

theorem reaches_changePin : Reaches (fun P => changePin P CP) P w
    (CP.keyAgreementPresent ∧ clientPinIsSet w ∧ CP.pinHashEncPresent ∧ CP.HasNewPin) := by
  have hrun : Reaches (fun P => changePin P CP) P w _ := Reaches.after run_get (reaches_failIf fun _ =>
    reaches_failIf fun _ => reaches_updatePinIfVerified.bind _)
  refine hrun.congr ?_
  unfold ClientPin.HasNewPin
  tauto

theorem reaches_issueToken {permissions : UInt8} {rpId : List UInt8} :
    Reaches (fun P => issueToken P CP permissions rpId) P w True :=
  Reaches.after (show encode (responseEncoder.createMap 1) w = .ok _ w from rfl)
    (Reaches.after (show encode (Encoder.int _ 2) w = .ok _ w from rfl) (Reaches.bind (reaches_ecdh.bind _) _))

theorem reaches_getPinToken : Reaches (fun P => getPinToken P CP) P w
    (CP.keyAgreementPresent ∧ clientPinIsSet w ∧ CP.pinHashEncPresent ∧
      ¬ CP.permissionsPresent ∧ CP.permissions = 0 ∧ CP.rpId.size = 0) := by
  have hrun : Reaches (fun P => getPinToken P CP) P w _ := Reaches.after run_get (reaches_failIf fun _ =>
    reaches_failIf fun _ => reaches_failIf fun _ => reaches_issueToken)
  refine hrun.congr ?_
  rw [Nat.pos_iff_ne_zero]
  tauto

theorem reaches_getPinUvAuthTokenUsingPinWithPermissions :
    Reaches (fun P => getPinUvAuthTokenUsingPinWithPermissions P CP) P w
      (CP.keyAgreementPresent ∧ clientPinIsSet w ∧ CP.pinHashEncPresent ∧
        CP.permissionsPresent ∧ CP.permissions ≠ 0 ∧
        (CP.permissions &&& permissionsDefinedMask) &&& permissionsUnsupportedMask = 0 ∧
        ((CP.permissions &&& permissionsDefinedMask) &&& (permissionMc ||| permissionGa) ≠ 0 → CP.rpId.size ≠ 0)) := by
  have hrun : Reaches (fun P => getPinUvAuthTokenUsingPinWithPermissions P CP) P w _ :=
    Reaches.after run_get (reaches_failIf fun _ => reaches_failIf fun _ => reaches_failIf fun _ =>
      reaches_failIf fun _ => reaches_failIf fun _ => reaches_issueToken)
  refine hrun.congr ?_
  tauto

/-- The four sub-commands that take a key. -/
def ClientPin.TakesKey (CP : ClientPin) : Prop := CP.subCommand ∈ ([3, 4, 5, 9] : List Int)

theorem reaches_ctapClientPin {request : List UInt8} (hparse : parseClientPinRequest request = .ok CP)
    (hsub : CP.TakesKey) : Reaches (fun P => ctapClientPin P request) P w (CP.Passes w) := by
  have hcheck : (ctapCheck (parseClientPinRequest request) : CtapM ClientPin) w = .ok CP w := by
    rw [hparse]
    rfl
  have hkey : CP.subCommand = 3 ∨ CP.subCommand = 4 ∨ CP.subCommand = 5 ∨ CP.subCommand = 9 := by
    simpa [ClientPin.TakesKey] using hsub
  have hproto : CP.pinProtocol = 1 ∨ CP.pinProtocol = 2 → CP.pinProtocol ≠ 0 := by
    rintro (h | h) <;> rw [h] <;> decide
  have hother {c : Int} {m : Platform → CtapM (List UInt8)} (hc : CP.subCommand ≠ c) (h : CP.subCommand = c) :
      Reaches m P w False := absurd h hc
  refine Reaches.congr (Reaches.after hcheck (reaches_failIf fun _ => reaches_failIf fun _ =>
    reaches_ite (hother (by omega)) fun _ => reaches_ite (hother (by omega)) fun _ =>
      reaches_ite (fun _ => reaches_setPin) fun _ => Reaches.after run_get (reaches_failIf fun _ =>
        Reaches.after run_get (reaches_failIf fun _ => reaches_ite (fun _ => reaches_changePin) fun _ =>
          reaches_ite (fun _ => reaches_getPinToken) fun _ =>
          reaches_ite (fun _ => reaches_getPinUvAuthTokenUsingPinWithPermissions) fun _ => reaches_failWith)))) ?_
  unfold ClientPin.Passes ClientPin.PassesUnlocked
  rcases hkey with hkey | hkey | hkey | hkey
  all_goals
    rw [hkey]
    norm_num
    tauto

end ClientPin

/-! ## authenticatorGetAssertion -/

/-- The part of `ctap_get_assertion` between its parser and its extension outputs: the number of credentials and
the response so far. -/
def assertionChecks (GA : GetAssertion) (P : Platform) : CtapM (Nat × Encoder) := do
  onlyIf GA.pinUvAuthParam.empty selectByTouch
  failIf (GA.rp.size = 0 ∨ ¬ GA.clientDataHashPresent) .missingParameter
  let (rpIdHash, rpIdLookup) := ctapDeriveRpIdInfo P.prims (← get).keys GA.rp.bytes
  verifyGetAssertionAuth P GA rpIdHash
  let validCredCount ← buildFilteredCredentialList P GA rpIdHash rpIdLookup
  failIf (validCredCount = 0) .noCredentials
  let map ← encode (responseEncoder.createMap (assertionMapSize (← get).ga.creds validCredCount))
  onlyIf (validCredCount < 2 ∨ (← get).ga.userVerified = 0) (hideName 0)
  makeAssertionAuthData P GA rpIdHash rpIdLookup
  pure (validCredCount, map)

/-- The rest of `ctap_get_assertion`. -/
def assertionResponse (GA : GetAssertion) (x : Nat × Encoder) (P : Platform) : CtapM (List UInt8) := do
  let size ← assertionExtensions P GA.extensions
  let ga := (← get).ga
  let map ← encodeAssertionResponse P x.2 (ga.creds.nth 0) (ga.authDataBytes size) GA.clientDataHash
  let map ← encodeCount map x.1
  let encoder ← encode (responseEncoder.close map)
  saveCredentialList GA.clientDataHash (x.1 - 1) GA.extensions
  pure encoder.out

section GetAssertion

variable {P : Platform} {w : World} {GA : GetAssertion} {f : SharedSecret}

theorem ctapGetAssertion_eq_checks {request : List UInt8} : ctapGetAssertion P request =
    parseGetAssertionRequest request >>= fun GA => assertionChecks GA P >>= fun x => assertionResponse GA x P := by
  unfold ctapGetAssertion assertionChecks assertionResponse
  simp only [bind_assoc, pure_bind]

theorem allowListLoop_withSharedSecret {filter : Filter} {fuel i credLen count : Nat} {creds : Creds} :
    allowListLoop (P.withSharedSecret f).prims filter fuel i credLen count creds
      = allowListLoop P.prims filter fuel i credLen count creds := by
  induction fuel generalizing i credLen count creds with
  | zero => rfl
  | succ fuel ih =>
    unfold allowListLoop
    rw [ih, ih]
    rfl

theorem storedLoop_withSharedSecret {filter : Filter} {l : List ResidentKey} {count : Nat} {creds : Creds} :
    storedLoop (P.withSharedSecret f).prims filter l count creds = storedLoop P.prims filter l count creds := by
  induction l generalizing count creds with
  | nil => rfl
  | cons rk l ih =>
    unfold storedLoop
    rw [ih, ih]
    rfl

theorem assertionChecks_withSharedSecret : assertionChecks GA (P.withSharedSecret f) = assertionChecks GA P := by
  have hfilter {filter : Filter} {n : Nat} {creds : Creds} :
      filterCredentials (P.withSharedSecret f) filter n creds = filterCredentials P filter n creds := by
    unfold filterCredentials
    rw [allowListLoop_withSharedSecret]
    simp only [storedLoop_withSharedSecret]
    rfl
  have hbuild {h : Bytes 32} {l : Bytes 16} :
      buildFilteredCredentialList (P.withSharedSecret f) GA h l = buildFilteredCredentialList P GA h l := by
    unfold buildFilteredCredentialList
    simp only [hfilter]
  unfold assertionChecks
  simp only [hbuild]
  rfl

theorem answers_failWith {α : Type} {s : CtapError} : Raises Stop.IsStatus (failWith s : CtapM α) :=
  raises_throw ⟨s, rfl⟩

theorem answers_failIf {c : Prop} [Decidable c] {s : CtapError} : Raises Stop.IsStatus (failIf c s) :=
  raises_ite answers_failWith raises_pure

theorem answers_checkStatus {r : CtapStatus} : Raises Stop.IsStatus (checkStatus r) := by
  cases r with
  | ok => exact raises_pure
  | error e => exact answers_failWith

theorem answers_encode {α : Type} {x : EncM α} : Raises Stop.IsStatus (encode x) := by
  cases x with
  | ok a => exact raises_pure
  | error e => exact raises_throw ⟨_, rfl⟩

theorem answers_selectByTouch : Raises Stop.IsStatus selectByTouch :=
  Raises.bind (raises_ctap2UserPresenceTest.bind fun _ => answers_checkStatus) fun _ =>
    raises_get.bind fun _ => answers_failWith

theorem raises_usageTimeObserver {R : Stop → Prop} {slot : Slot} : Raises R (usageTimeObserver slot) :=
  raises_get.bind fun _ => raises_ite (raises_modifyGet.bind fun _ => raises_emit.bind fun _ =>
    raises_get.bind fun _ => (raises_onlyIf raises_modify).bind fun _ => raises_get.bind fun _ =>
    (raises_onlyIf raises_modify).bind fun _ => raises_get.bind fun _ => raises_ite raises_modify raises_modify)
    raises_emit

theorem answers_verifyGetAssertionAuth {h : Bytes 32} : Raises Stop.IsStatus (verifyGetAssertionAuth P GA h) := by
  have hverify : Raises Stop.IsStatus
      (clientPinVerifyAuth P GA.pinUvAuthParam.param GA.clientDataHash GA.pinProtocol) :=
    raises_usageTimeObserver.bind fun _ => raises_get.bind fun _ => answers_failIf.bind fun _ =>
      raises_get.bind fun _ => answers_failIf.bind fun _ => raises_emit
  exact raises_ite (answers_failIf.bind fun _ => hverify.bind fun _ => raises_get.bind fun _ =>
    answers_failIf.bind fun _ => raises_get.bind fun _ => answers_failIf.bind fun _ => raises_get.bind fun _ =>
    answers_failIf.bind fun _ => raises_modify) raises_modify

theorem answers_makeAssertionAuthData {h : Bytes 32} {l : Bytes 16} :
    Raises Stop.IsStatus (makeAssertionAuthData P GA h l) := by
  have hheader : Raises Stop.IsStatus (makeAuthDataHeader .assertion h) :=
    raises_get.bind fun _ => raises_modify.bind fun _ => raises_ctapAuthDataUpdateCount.bind fun _ =>
      raises_modify.bind fun _ => raises_ctap2UserPresenceTest.bind fun _ =>
      (raises_onlyIf answers_checkStatus).bind fun _ => raises_get.bind fun _ => raises_modify.bind fun _ => raises_pure
  have hdata : Raises Stop.IsStatus
      (discard (ctapMakeAuthData P .assertion GA.rp h l none GA.extensions)) :=
    Raises.map (hheader.bind fun (_, _) => raises_pure)
  have htry : Raises Stop.IsStatus (tryCatch (discard (ctapMakeAuthData P .assertion GA.rp h l none GA.extensions))
      fun e => do
        deviceDisableUp false
        throw e) := hdata.tryCatch fun e he => raises_modify.bind fun _ => raises_throw he
  exact raises_modify.bind fun _ => htry.bind fun _ => raises_modify.bind fun _ =>
    (raises_onlyIf raises_clearPinFlags).bind fun _ => raises_get.bind fun _ => raises_modify

theorem answers_assertionChecks : Raises Stop.IsStatus (assertionChecks GA P) :=
  (raises_onlyIf answers_selectByTouch).bind fun _ => answers_failIf.bind fun _ => raises_get.bind fun _ =>
    answers_verifyGetAssertionAuth.bind fun _ =>
    Raises.bind (raises_get.bind fun _ => raises_modify.bind fun _ => raises_emit.bind fun _ => raises_pure) fun _ =>
    answers_failIf.bind fun _ => raises_get.bind fun _ => answers_encode.bind fun _ => raises_get.bind fun _ =>
    (raises_onlyIf (raises_get.bind fun _ => raises_modify)).bind fun _ =>
    answers_makeAssertionAuthData.bind fun _ => raises_pure

theorem reaches_ctapExtensionsEncodeOutput {ext : Extensions} (hparsed : ext.hmacSecretPresent = .parsed)
    {id : CredentialId} {size : Nat} : Reaches (fun P => ctapExtensionsEncodeOutput P ext id size) P w True := by
  have houtput : Reaches (fun P => hmacSecretOutput? P ext id) P w True := by
    unfold hmacSecretOutput?
    simp only [if_pos hparsed, ← bind_pure_comp]
    exact Reaches.bind (reaches_ecdh.bind _) _
  exact houtput.bind _

theorem reaches_assertionResponse (hparsed : GA.extensions.hmacSecretPresent = .parsed) (x : Nat × Encoder) :
    Reaches (assertionResponse GA x) P w True :=
  Reaches.bind (Reaches.after run_get ((reaches_ctapExtensionsEncodeOutput hparsed).bind _)) _

theorem reaches_ctapGetAssertion {request : List UInt8} {parsed : World}
    (hparse : parseGetAssertionRequest request w = .ok GA parsed)
    (hparsed : GA.extensions.hmacSecretPresent = .parsed) : Reaches (fun P => ctapGetAssertion P request) P w
      (∃ x w', assertionChecks GA P parsed = .ok x w') := by
  simp only [ctapGetAssertion_eq_checks]
  exact Reaches.after hparse (reaches_checks (fun _ => assertionChecks_withSharedSecret) answers_assertionChecks
    fun x _ _ => reaches_assertionResponse hparsed x)

/-! ## authenticatorGetNextAssertion -/

/-- The rest of `ctap_get_next_assertion`, behind its extension outputs. -/
theorem reaches_nextExtensions (hparsed : w.ga.extensions.hmacSecretPresent = .parsed) :
    Reaches nextExtensions P w True := by
  refine ⟨fun _ => ?_, fun h => absurd trivial h⟩
  have hout : Reaches (fun P => ctapExtensionsEncodeOutput P w.ga.extensions (w.ga.creds.nth 0).id 80) P w True :=
    reaches_ctapExtensionsEncodeOutput hparsed
  obtain ⟨w', hexit⟩ := hout.computes trivial
  refine ⟨w', ?_⟩
  unfold nextExtensions
  rw [get_bind]
  exact tryCatch_of_error (bind_eq_error.mpr (.inl hexit))

/-- A credential is left. -/
def World.HasNext (w : World) : Prop := 0 < w.ga.count ∧ w.ga.index < w.ga.count

instance (w : World) : Decidable w.HasNext := inferInstanceAs (Decidable (_ ∧ _))

theorem reaches_ctapGetNextAssertion (hparsed : w.ga.extensions.hmacSecretPresent = .parsed) :
    Reaches ctapGetNextAssertion P w w.HasNext := by
  by_cases hnext : w.HasNext
  · have hget : getNextCredential w = .ok (some w.ga.index.toNat)
        { w with ga := { w.ga with index := w.ga.index + 1 } } := by
      unfold getNextCredential
      rw [get_bind]
      exact congrFun (if_pos hnext) w
    obtain ⟨count, w₂, hcount⟩ : ∃ count w₂, ctapAuthDataUpdateCount
        { w with ga := { w.ga with index := w.ga.index + 1 } } = .ok count w₂ := by
      cases hrun : ctapAuthDataUpdateCount { w with ga := { w.ga with index := w.ga.index + 1 } } with
      | ok count w₂ => exact ⟨count, w₂, rfl⟩
      | error e w₂ => exact (raises_ctapAuthDataUpdateCount (R := fun _ => False) _ _ _ hrun).elim
    have hga : w₂.ga = { w.ga with index := w.ga.index + 1 } :=
      (touches_ctapAuthDataUpdateCount .ga (by decide)).ok hcount
    have hencode (n : Nat) (v : World) (hn : n = 4 ∨ n = 3) :
        ∃ e, encode (responseEncoder.createMap n) v = .ok e v := by
      rcases hn with rfl | rfl <;> exact ⟨_, rfl⟩
    have hhide (c : Prop) [Decidable c] (i : Nat) (v : World) :
        ∃ v', onlyIf c (hideName i) v = .ok () v' ∧ v'.ga.extensions = v.ga.extensions := by
      by_cases hc : c
      · exact ⟨_, congrFun (if_pos hc) v, rfl⟩
      · exact ⟨_, congrFun (if_neg hc) v, rfl⟩
    have hrest (v : World) (hv : v.ga.extensions.hmacSecretPresent = .parsed) (i : Nat) : Reaches (fun P => do
        let ga := (← get).ga
        let map ← encode (responseEncoder.createMap (if (ga.creds.nth i).user.idSize ≠ 0 then 4 else 3))
        onlyIf (ga.userVerified = 0) (hideName i)
        let size ← nextExtensions P
        let ga := (← get).ga
        let map ← encodeAssertionResponse P map (ga.creds.nth i) (ga.authDataBytes size) ga.clientDataHash
        let encoder ← encode (responseEncoder.close map)
        pure encoder.out) P v True := by
      obtain ⟨map, hmap⟩ := hencode (if (v.ga.creds.nth i).user.idSize ≠ 0 then 4 else 3) v (ite_eq_or_eq _ _ _)
      obtain ⟨v', hname, hext⟩ := hhide (v.ga.userVerified = 0) i v
      have hparsed' : v'.ga.extensions.hmacSecretPresent = .parsed := by rw [hext]; exact hv
      exact Reaches.after run_get (Reaches.after hmap (Reaches.after hname ((reaches_nextExtensions hparsed').bind _)))
    refine Reaches.congr (Reaches.after hget (Reaches.after hcount (Reaches.after rfl (hrest _ ?_ _))))
      (iff_of_true trivial hnext)
    show w₂.ga.extensions.hmacSecretPresent = .parsed
    rw [hga]
    exact hparsed
  · have hget : getNextCredential w = .ok none w := by
      unfold getNextCredential
      rw [get_bind]
      exact congrFun (if_neg hnext) w
    exact Reaches.congr (Reaches.after hget reaches_failWith) (iff_of_false not_false hnext)

end GetAssertion

/-! ## The keys of requests -/

/-- A key that does not belong to P-256 is refused exactly where a check that is not about the key ends the request
first.  Where the request comes to the key, a secret is computed with any key. -/
theorem invalid_key_refused_iff (P : Platform) :
    (∀ (request : List UInt8) (w : World) (CP : ClientPin), parseClientPinRequest request = .ok CP → CP.TakesKey →
      (RefusesInvalid (fun P => ctapClientPin P request) P w CP.keyAgreement ↔
        CP.keyAgreement.ForP256 ∨ ¬ CP.Passes w)) ∧
    (∀ (request : List UInt8) (w parsed : World) (GA : GetAssertion),
      parseGetAssertionRequest request w = .ok GA parsed → GA.extensions.hmacSecretPresent = .parsed →
        (RefusesInvalid (fun P => ctapGetAssertion P request) P w GA.extensions.keyAgreement ↔
          GA.extensions.keyAgreement.ForP256 ∨ ¬ ∃ x w', assertionChecks GA P parsed = .ok x w')) ∧
    ∀ w : World, w.ga.extensions.hmacSecretPresent = .parsed →
      (RefusesInvalid ctapGetNextAssertion P w w.ga.extensions.keyAgreement ↔
        w.ga.extensions.keyAgreement.ForP256 ∨ ¬ w.HasNext) :=
  ⟨fun _ _ _ hparse htakes => (reaches_ctapClientPin hparse htakes).refusesInvalid_iff _,
    fun _ _ _ _ hparse hparsed => (reaches_ctapGetAssertion hparse hparsed).refusesInvalid_iff _,
    fun _ hparsed => (reaches_ctapGetNextAssertion hparsed).refusesInvalid_iff _⟩

/-- setPIN without a new PIN, authenticatorGetAssertion for a party without credentials. -/
theorem invalid_key_refused_iff_early :
    (∃ CP, parseClientPinRequest (encMap [([1], [1]), ([2], [3]), ([3], simCoseKey)]) = .ok CP ∧
      ¬ CP.keyAgreement.ForP256 ∧ RefusesInvalid
        (fun P => ctapClientPin P (encMap [([1], [1]), ([2], [3]), ([3], simCoseKey)])) simPlatform simStart
        CP.keyAgreement) ∧
    ∃ GA parsed, parseGetAssertionRequest (secretRequest "a") simStart = .ok GA parsed ∧
      ¬ GA.extensions.keyAgreement.ForP256 ∧ RefusesInvalid
        (fun P => ctapGetAssertion P (secretRequest "a")) simPlatform simStart GA.extensions.keyAgreement := by
  obtain ⟨hpin, hassertion, -⟩ := invalid_key_refused_iff simPlatform
  constructor
  · obtain ⟨CP, hparse, htest⟩ :
        ∃ CP, parseClientPinRequest (encMap [([1], [1]), ([2], [3]), ([3], simCoseKey)]) = .ok CP ∧
          (decide (CP.subCommand = 3) && decide (CP.newPinEncSize = 0) &&
            !decide CP.keyAgreement.ForP256) = true := parse_of_test (by decide +kernel)
    simp only [Bool.and_eq_true, Bool.not_eq_true', decide_eq_true_iff, decide_eq_false_iff_not] at htest
    obtain ⟨⟨hsub, hsize⟩, hkey⟩ := htest
    refine ⟨CP, hparse, hkey, (hpin _ _ _ hparse (by simp [ClientPin.TakesKey, hsub])).mpr (.inr ?_)⟩
    rintro ⟨-, -, ⟨-, -, hnew⟩ | ⟨hset, -⟩⟩
    · exact hnew.1 hsize
    · revert hset
      decide +kernel
  · obtain ⟨GA, parsed, hparse, htest⟩ : ∃ GA parsed,
        parseGetAssertionRequest (secretRequest "a") simStart = .ok GA parsed ∧
          (decide (GA.extensions.hmacSecretPresent = .parsed) && !decide GA.extensions.keyAgreement.ForP256 &&
            !runTest (assertionChecks GA simPlatform) (fun _ _ => true) parsed) = true :=
      runTest_ok (by decide +kernel)
    simp only [Bool.and_eq_true, Bool.not_eq_true', decide_eq_true_iff, decide_eq_false_iff_not] at htest
    obtain ⟨⟨hparsed, hkey⟩, hchecks⟩ := htest
    refine ⟨GA, parsed, hparse, hkey, (hassertion _ _ _ _ hparse hparsed).mpr (.inr ?_)⟩
    rintro ⟨x, w', hrun⟩
    rw [runTest, hrun] at hchecks
    exact Bool.noConfusion hchecks

/-- A PIN is set with a key that is no point of the curve. -/
theorem invalid_key_sets_pin : ∃ CP, parseClientPinRequest (setPinRequest "1234") = .ok CP ∧ CP.TakesKey ∧
    ¬ CP.keyAgreement.ForP256 ∧ (∃ response w', ctapClientPin simPlatform (setPinRequest "1234") simStart
      = .ok response w' ∧ clientPinIsSet w' = true) ∧
    ¬ RefusesInvalid (fun P => ctapClientPin P (setPinRequest "1234")) simPlatform simStart CP.keyAgreement := by
  obtain ⟨CP, hparse, htest⟩ : ∃ CP, parseClientPinRequest (setPinRequest "1234") = .ok CP ∧
      (decide (CP.subCommand = 3) && !decide CP.keyAgreement.ForP256) = true := parse_of_test (by decide +kernel)
  simp only [Bool.and_eq_true, Bool.not_eq_true', decide_eq_true_iff, decide_eq_false_iff_not] at htest
  obtain ⟨hsub, hkey⟩ := htest
  obtain ⟨response, w', hrun, hset⟩ : ∃ response w', ctapClientPin simPlatform (setPinRequest "1234") simStart
      = .ok response w' ∧ clientPinIsSet w' = true := runTest_ok (by decide +kernel)
  refine ⟨CP, hparse, by simp [ClientPin.TakesKey, hsub], hkey, ⟨response, w', hrun, hset⟩, fun hrefuses => ?_⟩
  obtain ⟨⟨e, w'', herror⟩, -⟩ := hrefuses hkey
  have hclash : (.ok response w' : EStateM.Result Stop World (List UInt8)) = .error (.status e) w'' := hrun.symm.trans herror
  cases hclash

end TkeyFido2
