import TkeyFido2.Ctap.Footprint

/-!
# Invariants of the commands

How to show that an invariant survives a command: what the command does to parts that the invariant
does not look at follows from its footprint, and only the few functions that write the other parts
remain.
-/

namespace TkeyFido2

open Cbor Prog

/-- `I` does not look at the parts in `S`. -/
def Ignores (S : List Part) (I : World → Prop) : Prop :=
  ∀ w w', (∀ p ∉ S, p.view w' = p.view w) → I w → I w'

section Rules

variable {α : Type} {S T : List Part} {m : CtapM α} {I : World → Prop}

theorem Ignores.mono (h : Ignores T I) (hST : S ⊆ T) : Ignores S I :=
  fun w w' hw => h w w' fun p hp => hw p fun hp' => hp (hST hp')

/-- A function that writes nothing that the invariant looks at. -/
theorem Ignores.preserves (hI : Ignores T I) (hm : Touches S m) (hST : S ⊆ T) : Preserves I m :=
  fun s hs => hI s _ (fun p hp => hm p (fun hp' => hp (hST hp')) s) hs

theorem preserves_onlyIf {c : Prop} [Decidable c] {m : CtapM Unit} (h : Preserves I m) :
    Preserves I (onlyIf c m) := preserves_ite (fun _ => h) fun _ => preserves_pure

theorem preserves_failIf {c : Prop} [Decidable c] {s : CtapError} : Preserves I (failIf c s) :=
  preserves_ite (fun _ => preserves_throw) fun _ => preserves_pure

theorem preserves_ctapCheck {x : Parse α} : Preserves I (ctapCheck x : CtapM α) := by
  cases x with
  | ok a => exact preserves_pure
  | error e => exact preserves_throw

theorem preserves_encode {x : EncM α} : Preserves I (encode x) := preserves_ctapCheck

theorem World.state_ext {w w' : World} (h₁ : w'.pinState = w.pinState) (h₂ : w'.rkStored = w.rkStored)
    (h₃ : w'.identity = w.identity) : w'.state = w.state := by
  simp only [World.pinState, World.rkStored, World.identity, Prod.mk.injEq] at h₁ h₂ h₃
  obtain ⟨h₁₁, h₁₂, h₁₃, h₁₄⟩ := h₁
  obtain ⟨h₃₁, h₃₂, h₃₃⟩ := h₃
  cases hw : w'.state
  cases hv : w.state
  simp_all

end Rules

/-! ## authenticatorClientPIN -/

section ClientPin

variable {P : Platform} {I : World → Prop}

/-- What the PIN commands do besides their accounting of attempts. -/
def pinFreeParts : List Part := [.inputs, .token, .issued, .usage]

/-- A PIN is compared: the two branches of `add_enc_pinUvAuthToken` and `update_pin_if_verified`. -/
abbrev comparePin {α : Type} (P : Platform) (h : Bytes 16) (proto : UInt8) (k : CtapM α) : CtapM α := do
  if ← verifyAgainstStoredPin P h then
    resetPinAttempts P
    k
  else pinMismatch P proto

/-- Neither of the locks is closed. -/
def World.Unlocked (w : World) : Prop := 0 < w.state.remainingTries ∧ 0 < w.pinBootAttemptsLeft

/-- An invariant of the functions of the accounting is one of the comparison. -/
theorem preserves_comparePin (hI : Ignores pinFreeParts I)
    (hverify : ∀ h, Preserves I (verifyAgainstStoredPin P h))
    (hdec : Preserves I (decrementPinAttempts P)) (hreset : Preserves I (resetPinAttempts P))
    {α : Type} {h : Bytes 16} {proto : UInt8} {k : CtapM α} (hk : Preserves I k) :
    Preserves I (comparePin P h proto k) :=
  (hverify h).bind fun _ => preserves_ite (fun _ => hreset.bind fun _ => hk) fun _ =>
    (hI.preserves touches_regenerateKeyAgreement (by decide)).bind fun _ => hdec.bind fun _ =>
      preserves_get.bind fun _ => preserves_failIf.bind fun _ => preserves_get.bind fun _ =>
        preserves_failIf.bind fun _ => preserves_throw

variable (hI : Ignores pinFreeParts I)
  (hcompare : ∀ {α : Type} {h : Bytes 16} {proto : UInt8} {k : CtapM α}, Preserves I k →
    Leads (fun w => I w ∧ w.Unlocked) I (comparePin P h proto k))
  (hstore : ∀ pin, Preserves I (storePin P pin))

include hI in
theorem ignores_and_unlocked : Ignores pinFreeParts fun w => I w ∧ w.Unlocked := by
  intro w w' h hw
  have htries : w'.state.remainingTries = w.state.remainingTries :=
    congrArg (fun x : UInt8 × Int8 × Bytes 16 × Bytes 16 => x.2.1) (h .pinState (by decide))
  have hboot : w'.pinBootAttemptsLeft = w.pinBootAttemptsLeft := h .boot (by decide)
  exact ⟨hI w w' h hw.1, by unfold World.Unlocked; rw [htries, hboot]; exact hw.2⟩

include hI hcompare in
theorem leads_verifyCurrentPinIfSet {h : Option (Bytes 32)} {k : Bytes 32} {proto : UInt8} :
    Leads (fun w => I w ∧ w.Unlocked) I (verifyCurrentPinIfSet P h k proto) := by
  cases h with
  | none => exact preserves_pure.leads fun _ h => h.1
  | some h =>
    refine preserves_get.bind_leads (fun _ h => h.1) fun _ => leads_ite (fun _ => ?_) fun _ =>
      preserves_pure.leads fun _ h => h.1
    refine preserves_ctapCheck.bind_leads (fun _ h => h.1) fun _ => hcompare ?_
    exact (hI.preserves touches_resetPinUvAuthToken (by decide)).bind fun _ =>
      hI.preserves touches_resetPinUvAuthToken (by decide)

include hI hcompare hstore in
theorem leads_updatePinIfVerified {n : Bytes 80} {len : UInt8} {pub : Bytes 64} {a : Bytes 32}
    {h : Option (Bytes 32)} {proto : UInt8} :
    Leads (fun w => I w ∧ w.Unlocked) I (updatePinIfVerified P n len pub a h proto) :=
  have hK := ignores_and_unlocked hI
  preserves_failIf.bind_leads (fun _ h => h.1) fun _ =>
    (hK.preserves touches_ecdh (by decide)).bind_leads (fun _ h => h.1) fun (_, _) =>
    preserves_failIf.bind_leads (fun _ h => h.1) fun _ =>
    preserves_ctapCheck.bind_leads (fun _ h => h.1) fun _ =>
    preserves_failIf.bind_leads (fun _ h => h.1) fun _ =>
    (leads_verifyCurrentPinIfSet hI hcompare).bind_preserves fun _ => hstore _

include hI hstore in
theorem preserves_setPin {CP : ClientPin} : Preserves I (setPin P CP) :=
  preserves_failIf.bind fun _ => preserves_get.bind fun _ => preserves_failIf.bind fun _ =>
    Preserves.bind
      (preserves_failIf.bind fun _ => (hI.preserves touches_ecdh (by decide)).bind fun (_, _) =>
        preserves_failIf.bind fun _ => preserves_ctapCheck.bind fun _ => preserves_failIf.bind fun _ =>
        preserves_pure.bind fun _ => hstore _)
      fun _ => preserves_pure

include hI hcompare in
theorem leads_issueToken {CP : ClientPin} {perms : UInt8} {rp : List UInt8} :
    Leads (fun w => I w ∧ w.Unlocked) I (issueToken P CP perms rp) := by
  have hK := ignores_and_unlocked hI
  refine preserves_encode.bind_leads (fun _ h => h.1) fun _ =>
    preserves_encode.bind_leads (fun _ h => h.1) fun _ => Leads.bind_preserves ?_ fun _ =>
    preserves_encode.bind fun _ => preserves_encode.bind fun _ => preserves_pure
  refine (hK.preserves touches_ecdh (by decide)).bind_leads (fun _ h => h.1) fun (_, _) =>
    preserves_ctapCheck.bind_leads (fun _ h => h.1) fun _ => hcompare ?_
  exact (hI.preserves touches_resetPinUvAuthToken (by decide)).bind fun _ =>
    (hI.preserves touches_resetPinUvAuthToken (by decide)).bind fun _ =>
    (hI.preserves touches_beginUsingPinUvAuthToken (by decide)).bind fun _ =>
    (hI.preserves touches_associatePermissionsRpId (by decide)).bind fun _ =>
    preserves_get.bind fun _ =>
    (hI.preserves touches_emit_tokenIssued (by decide)).bind fun _ =>
    hI.preserves touches_encryptPinUvAuthToken (by decide)

/-- Behind the two lock checks. -/
theorem preserves_lock_checks {α : Type} {m : CtapM α}
    (hm : Leads (fun w => I w ∧ w.Unlocked) I m) :
    Preserves I (do
      failIf (clientPinIsLocked (← get)) .pinBlocked
      failIf (clientPinIsBootLocked (← get)) .pinAuthBlocked
      m) := by
  rw [preserves_iff_ends]
  intro w hw
  simp only [ends_bind, ends_get, ends_failIf]
  refine ⟨fun _ => hw, fun ht => ⟨fun _ => hw, fun hb => leads_iff_ends.mp hm w ⟨hw, ?_, ?_⟩⟩⟩
  · simpa [clientPinIsLocked] using ht
  · simpa [clientPinIsBootLocked] using hb

include hI hcompare hstore in
/-- An invariant of the PIN comparisons behind open locks is one of the command. -/
theorem preserves_ctapClientPin {request : List UInt8} : Preserves I (ctapClientPin P request) := by
  have hfirst (w : World) (h : I w ∧ w.Unlocked) : I w := h.1
  refine preserves_ctapCheck.bind fun _ => preserves_failIf.bind fun _ => preserves_failIf.bind fun _ =>
    preserves_ite (fun _ => hI.preserves touches_getPinRetries (by decide)) fun _ =>
    preserves_ite (fun _ => hI.preserves touches_getKeyAgreement (by decide)) fun _ =>
    preserves_ite (fun _ => preserves_setPin hI hstore) fun _ => preserves_lock_checks ?_
  refine leads_ite (fun _ => preserves_get.bind_leads hfirst fun _ =>
    preserves_failIf.bind_leads hfirst fun _ => preserves_failIf.bind_leads hfirst fun _ =>
    (leads_updatePinIfVerified hI hcompare hstore).bind_preserves fun _ => preserves_pure) fun _ => ?_
  refine leads_ite (fun _ => preserves_get.bind_leads hfirst fun _ =>
    preserves_failIf.bind_leads hfirst fun _ => preserves_failIf.bind_leads hfirst fun _ =>
    preserves_failIf.bind_leads hfirst fun _ => leads_issueToken hI hcompare) fun _ => ?_
  exact leads_ite (fun _ => preserves_get.bind_leads hfirst fun _ =>
    preserves_failIf.bind_leads hfirst fun _ => preserves_failIf.bind_leads hfirst fun _ =>
    preserves_failIf.bind_leads hfirst fun _ => preserves_failIf.bind_leads hfirst fun _ =>
    preserves_failIf.bind_leads hfirst fun _ => leads_issueToken hI hcompare) fun _ =>
    preserves_throw.leads hfirst

end ClientPin

/-! ## authenticatorMakeCredential and authenticatorCredentialManagement -/

section Store

variable {P : Platform} {I : World → Prop}

theorem preserves_makeAttestedData (hI : Ignores [.inputs] I)
    (hover : ∀ rk, Preserves I (ctapOverwriteRk P rk)) {rp : RpId} {h : Bytes 32} {l : Bytes 16}
    {n : UInt32} {c : CredInfo} {e : Extensions} : Preserves I (makeAttestedData P rp h l n c e) := by
  have hrng {n : Nat} : Preserves I (ctapGenerateRng n) :=
    hI.preserves touches_ctapGenerateRng (by decide)
  refine preserves_get.bind fun _ => hrng.bind fun _ => Preserves.bind (preserves_onlyIf ?_) fun _ =>
    (hI.preserves touches_coseKeyGenerate (by decide)).bind fun _ => preserves_pure
  exact preserves_get.bind fun _ => preserves_failIf.bind fun _ => hrng.bind fun _ =>
    preserves_get.bind fun _ => hover _

theorem preserves_updateUserInformation (hI : Ignores [.inputs, .cm] I)
    (hover : ∀ rk, Preserves I (ctapOverwriteRk P rk)) {params : SubCommandParams} :
    Preserves I (updateUserInformation P params) :=
  preserves_failIf.bind fun _ => (hI.preserves touches_clearState (by decide)).bind fun _ =>
    preserves_get.bind fun _ => (hI.preserves touches_findCredential (by decide)).bind fun _ =>
    preserves_failIf.bind fun _ => (hI.preserves touches_ctapGenerateRng (by decide)).bind fun _ =>
    (hover _).bind fun _ => (hI.preserves touches_clearState (by decide)).bind fun _ => preserves_pure

theorem preserves_deleteCredential (hdel : ∀ id, Preserves I (ctapDeleteRk P id))
    {params : SubCommandParams} : Preserves I (deleteCredential P params) :=
  preserves_failIf.bind fun _ => (hdel _).bind fun _ => preserves_failIf.bind fun _ => preserves_pure

/-- What authenticatorMakeCredential does besides storing a credential. -/
def makeFreeParts : List Part := [.inputs, .token, .verified, .usage, .hmacOutputs, .signatures, .assertionEvents, .counter]

/-- The counter and the amount that `ctap_atomic_count` adds. -/
theorem ctapAtomicCount_ok {w w' : World} {n : UInt32} (h : ctapAtomicCount 0 w = .ok n w') :
    w'.counter = n ∧ ∃ b : UInt8, n = w.counter + ((b &&& 0x0f).toUInt32 + 1) := by
  cases h
  exact ⟨rfl, _, rfl⟩

/-- A count of zero is skipped. -/
theorem ctapAuthDataUpdateCount_ne_zero : Yields (fun n => n ≠ 0) ctapAuthDataUpdateCount := by
  intro w n w' h
  unfold ctapAuthDataUpdateCount at h
  rw [bind_eq_ok] at h
  obtain ⟨count, w₁, hfirst, h⟩ := h
  rcases ite_eq_ok.mp h with ⟨hzero, h⟩ | ⟨hne, h⟩
  · obtain ⟨hcounter, -⟩ := ctapAtomicCount_ok hfirst
    obtain ⟨-, b, hn⟩ := ctapAtomicCount_ok h
    rw [hcounter, hzero, UInt32.zero_add] at hn
    intro hn₀
    have hnat := congrArg UInt32.toNat (hn.symm.trans hn₀)
    have hb := b.toNat_and 0x0f
    have hle : b.toNat &&& 15 ≤ 15 := Nat.and_le_right
    rw [UInt32.toNat_add, UInt8.toNat_toUInt32, hb] at hnat
    simp only [UInt8.reduceToNat, UInt32.reduceToNat] at hnat
    omega
  · obtain ⟨rfl, -⟩ := pure_eq_ok.mp h
    exact hne

theorem makeAuthDataHeader_count {buf : AuthBuf} {h : Bytes 32} :
    Yields (fun r => r.2 ≠ 0) (makeAuthDataHeader buf h) :=
  yields_bind fun _ => yields_bind fun _ => ctapAuthDataUpdateCount_ne_zero.bind fun _ hn =>
    yields_bind fun _ => yields_bind fun _ => yields_bind fun _ => yields_bind fun _ =>
    yields_bind fun _ => yields_pure hn

/-- Only `makeAttestedData` writes the store, for the RP of the request. -/
theorem preserves_ctapMakeCredential_of_parsed (hI : Ignores makeFreeParts I) {request : List UInt8}
    (hmake : ∀ MC l n, parseMakeCredential request = .ok MC → n ≠ 0 →
      Preserves I (makeAttestedData P MC.rp (P.prims.sha256 MC.rp.bytes) l n MC.credInfo MC.extensions)) :
    Preserves I (ctapMakeCredential P request) := by
  have hdata {MC : MakeCredential} {l : Bytes 16} (hMC : parseMakeCredential request = .ok MC) :
      Preserves I (makeCredentialAuthData P MC (P.prims.sha256 MC.rp.bytes) l) :=
    Preserves.bind
      ((hI.preserves (touches_makeAuthDataHeader .scratch) (by decide)).bind_yields makeAuthDataHeader_count
        fun (_, _) hn => (hmake _ _ _ hMC hn).bind fun _ => preserves_pure)
      fun (_, _) => (hI.preserves touches_clearPinFlags (by decide)).bind fun _ =>
        (hI.preserves touches_ctapExtensionsEncodeOutput (by decide)).bind fun _ => preserves_pure
  exact preserves_ctapCheck.bind_yields (fun _ _ _ h => (ctapCheck_eq_ok.mp h).1) fun _ hMC =>
    (preserves_onlyIf (hI.preserves touches_selectByTouch (by decide))).bind fun _ =>
    preserves_failIf.bind fun _ => (hI.preserves touches_verifyMakeCredentialAuth (by decide)).bind
    fun _ => preserves_failIf.bind fun _ => preserves_get.bind fun _ => preserves_get.bind fun _ =>
    preserves_get.bind fun _ => preserves_failIf.bind fun _ =>
    (hI.preserves touches_checkExcludeList (by decide)).bind fun _ =>
    preserves_encode.bind fun _ => preserves_encode.bind fun _ => preserves_get.bind fun _ =>
    preserves_encode.bind fun _ => (hdata hMC).bind fun _ =>
    preserves_encode.bind fun _ => preserves_encode.bind fun _ =>
    (hI.preserves touches_attestationSignature (by decide)).bind fun _ =>
    (hI.preserves touches_cborEncodeAttestationStatement (by decide)).bind fun _ =>
    preserves_encode.bind fun _ => preserves_pure

theorem preserves_ctapMakeCredential (hI : Ignores makeFreeParts I)
    (hmake : ∀ rp h l n c e, n ≠ 0 → Preserves I (makeAttestedData P rp h l n c e)) {request : List UInt8} :
    Preserves I (ctapMakeCredential P request) :=
  preserves_ctapMakeCredential_of_parsed hI fun _ _ _ _ hn => hmake _ _ _ _ _ _ hn

/-- What authenticatorCredentialManagement does besides changing the store. -/
def credMgmtFreeParts : List Part := [.inputs, .token, .verified, .usage, .cm]

theorem preserves_ctapCredentialManagement (hI : Ignores credMgmtFreeParts I)
    (hdel : ∀ params, Preserves I (deleteCredential P params))
    (hupd : ∀ params, Preserves I (updateUserInformation P params)) {request : List UInt8} :
    Preserves I (ctapCredentialManagement P request) := by
  refine preserves_ctapCheck.bind fun CM =>
    (hI.preserves touches_verifyPinAuthForCredentialManagement (by decide)).bind fun _ => ?_
  unfold credMgmtCommand
  split
  · exact hI.preserves touches_cborEncodeCredentialMetadata (by decide)
  · exact hI.preserves touches_enumerateRpsBegin (by decide)
  · exact hI.preserves touches_enumerateRpsGetNextRp (by decide)
  · exact hI.preserves touches_enumerateCredentialsBegin (by decide)
  · exact hI.preserves touches_enumerateCredentialsGetNextCredential (by decide)
  · exact hdel _
  · exact hupd _
  · exact preserves_throw

end Store

/-! ## ctap_request -/

section Request

variable {P : Platform} {I : World → Prop} {cmd : UInt8} {request : List UInt8}

/-- What the commands that write nothing permanent change. -/
def sessionParts : List Part :=
  [.inputs, .token, .verified, .usage, .hmacOutputs, .signatures, .assertionEvents, .counter, .ga, .cm, .upDisabled]

/-- The command of the request keeps an invariant. -/
theorem preserves_dispatch_of_command (hI : Ignores sessionParts I) (c : Command)
    (hmc : c = .makeCredential → Preserves I (ctapMakeCredential P request))
    (hpin : c = .clientPin → Preserves I (ctapClientPin P request))
    (hcm : c = .credentialManagement → Preserves I (ctapCredentialManagement P request))
    (hreset : c = .reset → Preserves I (ctapReset P)) : Preserves I (dispatch P c request) := by
  refine preserves_get.bind fun _ => preserves_failIf.bind fun _ => preserves_get.bind fun _ =>
    preserves_failIf.bind fun _ => ?_
  cases c with
  | makeCredential => exact hmc rfl
  | getAssertion => exact hI.preserves touches_ctapGetAssertion (by decide)
  | getInfo => exact hI.preserves touches_ctapGetInfo (by decide)
  | clientPin => exact hpin rfl
  | reset => exact hreset rfl
  | getNextAssertion =>
    exact preserves_get.bind fun _ => preserves_failIf.bind fun _ =>
      hI.preserves touches_ctapGetNextAssertion (by decide)
  | credentialManagement => exact hcm rfl
  | selection => exact hI.preserves touches_ctapSelection (by decide)
  | invalid => exact preserves_throw

theorem preserves_dispatch (hI : Ignores sessionParts I)
    (hmc : Preserves I (ctapMakeCredential P request)) (hpin : Preserves I (ctapClientPin P request))
    (hcm : Preserves I (ctapCredentialManagement P request)) (c : Command)
    (hreset : c = .reset → Preserves I (ctapReset P)) : Preserves I (dispatch P c request) :=
  preserves_dispatch_of_command hI c (fun _ => hmc) (fun _ => hpin) (fun _ => hcm) hreset

theorem preserves_ctapRequest (hI : Ignores [.ga] I)
    (hcmd : Preserves I (dispatch P (commandOf cmd) request)) : Preserves I (ctapRequest P cmd request) := by
  refine Preserves.bind (Preserves.tryCatch (hcmd.bind fun _ => preserves_pure) fun e => ?_) fun _ =>
    (hI.preserves touches_modifyGa (by decide)).bind fun _ => preserves_pure
  cases e with
  | status s => exact preserves_pure
  | halt h => exact preserves_throw

/-- The two ways in which `ctap_request` returns. -/
theorem ctapRequest_cases {w w' : World} {status : CtapStatus} {out : List UInt8}
    (h : ctapRequest P cmd request w = .ok (status, out) w') :
    ∃ w₁, w' = { w₁ with ga := { w₁.ga with lastcmd := nextLastcmd cmd status } } ∧
      ((status = .ok ∧ dispatch P (commandOf cmd) request w = .ok out w₁) ∨
        ∃ e, status = .error e ∧ out = [] ∧
          dispatch P (commandOf cmd) request w = .error (.status e) w₁) := by
  unfold ctapRequest at h
  obtain ⟨r, w₁, hr, h⟩ := bind_eq_ok.mp h
  obtain ⟨_, w₂, hmod, h⟩ := bind_eq_ok.mp h
  rw [modify_eq_ok] at hmod
  obtain ⟨rfl, rfl⟩ := pure_eq_ok.mp h
  refine ⟨w₁, hmod, ?_⟩
  change EStateM.tryCatch _ _ w = _ at hr
  unfold EStateM.tryCatch at hr
  cases hd : dispatch P (commandOf cmd) request w with
  | ok o w₃ =>
    have hok : (dispatch P (commandOf cmd) request >>= fun o => pure (CtapStatus.ok, o)) w
        = .ok (.ok, o) w₃ := bind_eq_ok.mpr ⟨o, w₃, hd, rfl⟩
    rw [hok] at hr
    obtain ⟨⟨⟩, rfl⟩ : (CtapStatus.ok, o) = (status, out) ∧ w₃ = w₁ := by simpa using hr
    exact .inl ⟨rfl, rfl⟩
  | error e w₃ =>
    have herr : (dispatch P (commandOf cmd) request >>= fun o => pure (CtapStatus.ok, o)) w
        = .error e w₃ := bind_eq_error.mpr (.inl hd)
    rw [herr] at hr
    cases e with
    | status e =>
      obtain ⟨heq, hw⟩ := pure_eq_ok.mp hr
      obtain ⟨rfl, rfl⟩ := Prod.mk.inj heq
      exact .inr ⟨e, rfl, rfl, by rw [hw]; rfl⟩
    | halt e => exact absurd hr (by simp)

theorem keeps_fixed_dispatch {c : Command} {request : List UInt8} :
    Keeps World.fixed (dispatch P c request) := by
  have hfail {c : Prop} [Decidable c] {s : CtapError} : Keeps World.fixed (failIf c s) :=
    touches_failIf (S := []) .fixed (by decide)
  have hget : Keeps World.fixed (get : CtapM World) := fun _ => rfl
  refine hget.bind fun _ => hfail.bind fun _ => hget.bind fun _ => hfail.bind fun _ => ?_
  cases c with
  | makeCredential => exact touches_ctapMakeCredential .fixed (by decide)
  | getAssertion => exact touches_ctapGetAssertion .fixed (by decide)
  | getInfo => exact touches_ctapGetInfo .fixed (by decide)
  | clientPin => exact touches_ctapClientPin .fixed (by decide)
  | reset => exact touches_ctapReset .fixed (by decide)
  | getNextAssertion =>
    exact hget.bind fun _ => hfail.bind fun _ => touches_ctapGetNextAssertion .fixed (by decide)
  | credentialManagement => exact touches_ctapCredentialManagement .fixed (by decide)
  | selection => exact touches_ctapSelection .fixed (by decide)
  | invalid => exact fun _ => rfl

/-- The function of a command succeeds. -/
def Command.Succeeds (P : Platform) (c : Command) (request out : List UInt8) (w w' : World) : Prop :=
  match c with
  | .makeCredential => ctapMakeCredential P request w = .ok out w'
  | .getAssertion => ctapGetAssertion P request w = .ok out w'
  | .getInfo => ctapGetInfo w = .ok out w'
  | .clientPin => ctapClientPin P request w = .ok out w'
  | .reset => ctapReset P w = .ok out w'
  | .getNextAssertion => w.ga.lastcmd = 0x02 ∧ ctapGetNextAssertion P w = .ok out w'
  | .credentialManagement => ctapCredentialManagement P request w = .ok out w'
  | .selection => ctapSelection w = .ok out w'
  | .invalid => False

/-- A command behind the lock checks. -/
theorem dispatch_ok {c : Command} {request out : List UInt8} {w w' : World}
    (h : dispatch P c request w = .ok out w') :
    (c.checksLock = true → 0 < w.state.remainingTries) ∧ c.Succeeds P request out w w' := by
  unfold dispatch at h
  rw [get_bind, failIf_bind_eq_ok, get_bind, failIf_bind_eq_ok] at h
  obtain ⟨hlock, -, h⟩ := h
  refine ⟨fun hc => ?_, ?_⟩
  · have hopen : clientPinIsLocked w = false := by simpa [hc] using hlock
    simpa [clientPinIsLocked] using hopen
  · cases c with
    | getNextAssertion =>
      dsimp only at h
      rw [get_bind, failIf_bind_eq_ok] at h
      exact ⟨not_not.mp h.1, h.2⟩
    | invalid => simp at h
    | _ => exact h

end Request

/-! ## Runs -/

section Runs

variable {P : Platform} {I : World → Prop}

/-- What is new at the start of a request. -/
def requestParts : List Part :=
  [.inputs, .pinChecks, .issued, .verified, .usage, .hmacOutputs, .signatures, .rkChanges, .assertionEvents, .journal,
    .fixed]

theorem withInputs_view {w : World} {inputs : Inputs} {p : Part} (hp : p ∉ requestParts) :
    p.view (w.withInputs inputs) = p.view w := by
  cases p <;> first | rfl | simp [requestParts] at hp

/-- A request keeps what its command keeps. -/
theorem Served.Valid.invariant {r : Served} (hv : r.Valid P) (hI : Ignores (.ga :: requestParts) I)
    (hcmd : Preserves I (dispatch P (commandOf r.cmd) r.request)) (hb : I r.before) : I r.after := by
  obtain ⟨inputs, hr⟩ := hv
  obtain ⟨w₁, hafter, hd⟩ := ctapRequest_cases hr
  have hstart : I (r.before.withInputs inputs) :=
    hI _ _ (fun p hp => withInputs_view fun hp' => hp (List.mem_cons_of_mem _ hp')) hb
  have h₁ : I w₁ := by
    have hfinal := hcmd _ hstart
    rcases hd with ⟨-, hd⟩ | ⟨e, -, -, hd⟩
    · rwa [final_of_ok hd] at hfinal
    · rwa [final_of_error hd] at hfinal
  refine hI w₁ _ (fun p hp => ?_) h₁
  rw [hafter]
  cases p <;> first | rfl | simp at hp

/-- `ctap_request` does not change its inputs. -/
theorem ctapRequest_inputs {w w' : World} {cmd : UInt8} {request : List UInt8} {inputs : Inputs} {x : CtapStatus × List UInt8}
    (h : ctapRequest P cmd request (w.withInputs inputs) = .ok x w') : w'.inputs = inputs := by
  obtain ⟨w₁, hafter, hd⟩ := ctapRequest_cases h
  have hfixed : w₁.fixed = (w.withInputs inputs).fixed := by
    rcases hd with ⟨-, hd⟩ | ⟨e, -, -, hd⟩
    · exact keeps_fixed_dispatch.ok hd
    · exact keeps_fixed_dispatch.error hd
  rw [hafter]
  exact congrArg (fun x : UInt32 × Option (Bytes 32 × Bytes 16) × Option (List UInt8) × Inputs => x.2.2.2) hfixed

/-- A served request, with the run of its command. -/
theorem Served.Valid.run {r : Served} (hv : r.Valid P) :
    ∃ w₁, r.after = { w₁ with ga := { w₁.ga with lastcmd := nextLastcmd r.cmd r.status } } ∧
      ((r.status = .ok ∧ dispatch P (commandOf r.cmd) r.request (r.before.withInputs r.after.inputs)
          = .ok r.response w₁) ∨
        ∃ e, r.status = .error e ∧
          dispatch P (commandOf r.cmd) r.request (r.before.withInputs r.after.inputs)
            = .error (.status e) w₁) := by
  obtain ⟨inputs, hr⟩ := hv
  have hinputs : r.after.inputs = inputs := ctapRequest_inputs hr
  obtain ⟨w₁, hafter, hd⟩ := ctapRequest_cases hr
  refine ⟨w₁, hafter, ?_⟩
  rw [hinputs]
  rcases hd with hd | ⟨e, hs, -, hd⟩
  · exact .inl hd
  · exact .inr ⟨e, hs, hd⟩

/-- The state behind an entry. -/
def Entry.world : Entry → World
  | .boot w => w
  | .request r => r.after

theorem Run.head {h : List Entry} {w : World} (hr : Run P h w) : ∃ e t, h = e :: t ∧ w = e.world := by
  cases hr with
  | start hw hb => exact ⟨_, _, rfl, rfl⟩
  | request hr r hv hb => exact ⟨_, _, rfl, rfl⟩
  | boot hr hb => exact ⟨_, _, rfl, rfl⟩

theorem Run.ne_nil {w : World} : ¬ Run P [] w := by
  intro hr
  obtain ⟨e, t, h, -⟩ := hr.head
  cases h

/-- A request at the end of a history was served in the state that the history before it leads to. -/
theorem Run.of_request {h : List Entry} {w : World} {r : Served} (hr : Run P (.request r :: h) w) :
    Run P h r.before ∧ r.Valid P ∧ w = r.after := by
  generalize hh : Entry.request r :: h = h' at hr
  cases hr with
  | start hw hb => cases hh
  | boot hr hb => cases hh
  | request hr r' hv hb =>
    obtain ⟨heq, rfl⟩ := List.cons.inj hh
    cases heq
    exact ⟨hb ▸ hr, hv, rfl⟩

/-- A power cycle behind other entries. -/
theorem Run.of_boot {h : List Entry} {w w' : World} (hr : Run P (.boot w' :: h) w) (hne : h ≠ []) :
    ∃ w₀, Run P h w₀ ∧ Boots P w₀ w' ∧ w = w' := by
  generalize hh : Entry.boot w' :: h = h' at hr
  cases hr with
  | start hw hb =>
    obtain ⟨-, rfl⟩ := List.cons.inj hh
    exact absurd rfl hne
  | request hr r' hv hb => cases hh
  | boot hr hb =>
    obtain ⟨heq, rfl⟩ := List.cons.inj hh
    cases heq
    exact ⟨_, hr, hb, rfl⟩

/-- What a history begins with is a history. -/
theorem Run.suffix {h₁ h₂ : List Entry} {w : World} {r : Served}
    (hr : Run P (h₁ ++ .request r :: h₂) w) : Run P (.request r :: h₂) r.after := by
  induction h₁ generalizing w with
  | nil =>
    obtain ⟨-, -, rfl⟩ := hr.of_request
    exact hr
  | cons e h₁ ih =>
    rw [List.cons_append] at hr
    generalize hh : e :: (h₁ ++ .request r :: h₂) = h' at hr
    cases hr with
    | start hw hb => exact absurd (List.cons.inj hh).2 (by simp)
    | boot hr hb =>
      obtain ⟨-, rfl⟩ := List.cons.inj hh
      exact ih hr
    | request hr r' hv hb =>
      obtain ⟨-, rfl⟩ := List.cons.inj hh
      exact ih hr

/-- A history leads to one state. -/
theorem Run.unique {h : List Entry} {w w' : World} (hr : Run P h w) (hr' : Run P h w') : w = w' := by
  obtain ⟨e, t, rfl, rfl⟩ := hr.head
  obtain ⟨e', t', heq, rfl⟩ := hr'.head
  rw [(List.cons.inj heq).1]

/-- An invariant of every start and every command holds in every reachable state. -/
theorem Run.invariant (hI : Ignores (.ga :: requestParts) I)
    (hstart : ∀ w w', w.IsNew → Boots P w w' → I w') (hboot : ∀ w w', I w → Boots P w w' → I w')
    (hcmd : ∀ c request, Preserves I (dispatch P c request)) {h : List Entry} {w : World}
    (hr : Run P h w) : I w := by
  induction hr with
  | start hw hb => exact hstart _ _ hw hb
  | request _ r hv hb ih => exact hv.invariant hI (hcmd _ _) (hb ▸ ih)
  | boot _ hb ih => exact hboot _ _ ih hb

end Runs

end TkeyFido2
