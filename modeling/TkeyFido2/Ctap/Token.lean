import TkeyFido2.Ctap.Assertion
import TkeyFido2.Ctap.PinAttempts

/-!
# Tokens

What a pinUvAuthToken may still be used for.  Apart from the commands that compare a PIN and from a
reset, nothing adds to what a token record allows; and an operation that the user confirmed by touch
leaves nothing on the record it was authorised with.  So behind every authorised operation there is
one PIN entry that no earlier operation has used up.
-/

namespace TkeyFido2

open Cbor Prog

/-! ## What a record allows -/

/-- The record `t'` allows no more than `t` does. -/
structure PinUvAuthToken.Within (t' t : PinUvAuthToken) : Prop where
  inUse : t.state.inUse = true
  token : t'.token = t.token
  rpId : t'.state.permissionsRpIdPresent = t.state.permissionsRpIdPresent
  rpIdHash : t'.state.permissionsRpIdHash = t.state.permissionsRpIdHash
  permissions : ∀ m, t'.state.permissions &&& m ≠ 0 → t.state.permissions &&& m ≠ 0

/-- The permissions that an operation asks for are gone. -/
def PinUvAuthToken.Spent (t : PinUvAuthToken) : Prop :=
  t.state.inUse = true → ∀ m ∈ [permissionMc, permissionGa, permissionCm], t.state.permissions &&& m = 0

/-- No record that is in use in `w'` allows more than it did in `w`. -/
def World.Weaker (w w' : World) : Prop :=
  ∀ slot, (w'.token slot).state.inUse = true → (w'.token slot).Within (w.token slot)

section Weaker

variable {w w' w₀ : World} {slot : Slot}

theorem World.Weaker.refl (w : World) : w.Weaker w := fun _ h => ⟨h, rfl, rfl, rfl, fun _ h => h⟩

theorem PinUvAuthToken.Within.trans {t₁ t₂ t₃ : PinUvAuthToken} (h₃₂ : t₃.Within t₂)
    (h₂₁ : t₂.Within t₁) : t₃.Within t₁ :=
  ⟨h₂₁.inUse, h₃₂.token.trans h₂₁.token, h₃₂.rpId.trans h₂₁.rpId, h₃₂.rpIdHash.trans h₂₁.rpIdHash,
    fun m hm => h₂₁.permissions m (h₃₂.permissions m hm)⟩

theorem World.Weaker.trans {w₁ w₂ w₃ : World} (h₁₂ : w₁.Weaker w₂) (h₂₃ : w₂.Weaker w₃) :
    w₁.Weaker w₃ := by
  intro slot h
  have h₃ := h₂₃ slot h
  exact h₃.trans (h₁₂ slot h₃.inUse)

theorem World.Weaker.of_token (h : w'.token = w.token) : w.Weaker w' := by
  intro slot hu
  rw [h] at hu ⊢
  exact World.Weaker.refl w slot hu

/-- One record is replaced by one that allows no more. -/
theorem weaker_setToken {t : PinUvAuthToken}
    (h : t.state.inUse = true → t.Within (w.token slot)) : w.Weaker (w.setToken slot t) := by
  intro s hu
  by_cases hs : s = slot
  · subst hs
    simp only [World.setToken, Function.update_self] at hu ⊢
    exact h hu
  · simp only [World.setToken, Function.update_of_ne hs] at hu ⊢
    exact World.Weaker.refl w s hu

theorem weaker_modifyTokenState {f : TokenState → TokenState}
    (h : (f (w.token slot).state).inUse = true →
      ({ w.token slot with state := f (w.token slot).state } : PinUvAuthToken).Within (w.token slot)) :
    w.Weaker (w.modifyTokenState slot f) := weaker_setToken h

/-- A relation that is kept step by step. -/
theorem preserves_weaker {α : Type} {m : CtapM α} (h : ∀ w : World, w.Weaker (final m w)) :
    Preserves (World.Weaker w₀) m := fun w hw => hw.trans (h w)

/-- The parts other than the token records. -/
def tokenFreeParts : List Part :=
  [.stateFile, .journal, .counter, .rkFiles, .rkChanges, .pinState, .rkStored, .identity, .keys, .boot, .ga, .cm, .upDisabled,
    .inputs, .pinChecks, .issued, .verified, .usage, .hmacOutputs, .signatures, .assertionEvents, .fixed]

theorem ignores_weaker : Ignores tokenFreeParts (World.Weaker w₀) := by
  intro w w' h hw
  have ht : w'.token = w.token := h .token (by decide)
  exact hw.trans (.of_token ht)

end Weaker

/-! ## The functions that write records -/

section Writes

variable {P : Platform} {w₀ : World}

theorem weaker_stopUsing {slot : Slot} : Preserves (World.Weaker w₀) (stopUsingPinUvAuthToken slot) := by
  refine preserves_weaker fun w => ?_
  show w.Weaker (w.modifyTokenState slot fun _ => {})
  refine weaker_modifyTokenState fun h => ?_
  cases h

/-- A change to a record in use that removes permissions. -/
theorem weaker_clearInUse {slot : Slot} {f : TokenState → TokenState}
    (hrp : ∀ s, (f s).permissionsRpIdPresent = s.permissionsRpIdPresent
      ∧ (f s).permissionsRpIdHash = s.permissionsRpIdHash)
    (hperm : ∀ s m, (f s).permissions &&& m ≠ 0 → s.permissions &&& m ≠ 0) :
    Preserves (World.Weaker w₀) (clearInUse slot f) := by
  refine preserves_weaker fun w => ?_
  show w.Weaker (if (w.token slot).state.inUse then w.modifyTokenState slot f else w)
  by_cases hu : (w.token slot).state.inUse = true
  · rw [if_pos hu]
    exact weaker_modifyTokenState fun _ => ⟨hu, rfl, (hrp _).1, (hrp _).2, hperm _⟩
  · rw [if_neg hu]
    exact .refl w

theorem weaker_clearUserPresent {slot : Slot} :
    Preserves (World.Weaker w₀) (clientPinClearUserPresent slot) :=
  weaker_clearInUse (fun _ => ⟨rfl, rfl⟩) fun _ _ h => h

theorem weaker_clearUserVerified {slot : Slot} :
    Preserves (World.Weaker w₀) (clientPinClearUserVerified slot) :=
  weaker_clearInUse (fun _ => ⟨rfl, rfl⟩) fun _ _ h => h

theorem weaker_clearPermissions {slot : Slot} :
    Preserves (World.Weaker w₀) (clientPinClearPermissionsExceptLbw slot) := by
  refine weaker_clearInUse (fun _ => ⟨rfl, rfl⟩) fun s m h h₀ => h ?_
  show s.permissions &&& 0x10 &&& m = 0
  rw [UInt8.and_assoc, UInt8.and_comm 0x10 m, ← UInt8.and_assoc, h₀, UInt8.zero_and]

theorem weaker_clearPinFlags {slot : Slot} : Preserves (World.Weaker w₀) (clearPinFlags slot) :=
  weaker_clearUserPresent.bind fun _ => weaker_clearUserVerified.bind fun _ => weaker_clearPermissions

/-- The three calls behind a confirmed operation use the record up; the last one drops the permissions. -/
theorem clearPinFlags_spent {slot : Slot} {w w' : World} (h : clearPinFlags slot w = .ok () w') :
    (w'.token slot).Spent := by
  obtain ⟨⟨⟩, w₁, -, h⟩ := bind_eq_ok.mp h
  obtain ⟨⟨⟩, w₂, -, h⟩ := bind_eq_ok.mp h
  obtain ⟨-, rfl⟩ := modify_eq_ok.mp h
  intro hu m hm
  by_cases hused : (w₂.token slot).state.inUse = true
  · have hmask : 0x10 &&& m = 0 := by
      simp only [List.mem_cons, List.not_mem_nil, or_false] at hm
      rcases hm with rfl | rfl | rfl <;> rfl
    rw [if_pos hused]
    simp only [World.modifyTokenState, World.setToken, Function.update_self]
    rw [UInt8.and_assoc, hmask, UInt8.and_zero]
  · rw [if_neg hused] at hu
    exact absurd hu hused

theorem weaker_usageTimeObserver {slot : Slot} :
    Preserves (World.Weaker w₀) (usageTimeObserver slot) := by
  have hemit {now : Option UInt32} :
      Preserves (World.Weaker w₀) (emit (.tokenObserved slot now)) :=
    ignores_weaker.preserves (touches_emit_usage rfl) (by decide)
  refine preserves_get.bind fun _ => preserves_ite (fun _ => ?_) fun _ => hemit
  refine (ignores_weaker.preserves touches_millis (by decide)).bind fun now => hemit.bind fun _ =>
    preserves_get.bind fun _ => (preserves_onlyIf weaker_stopUsing).bind fun _ =>
    preserves_get.bind fun _ =>
    (preserves_onlyIf weaker_clearUserPresent).bind fun _ =>
    preserves_get.bind fun _ => preserves_ite (fun _ => weaker_stopUsing) fun _ => ?_
  refine preserves_weaker fun w => ?_
  show w.Weaker (w.modifyTokenState slot fun s => { s with usageTimerLastUsedMs := now })
  exact weaker_modifyTokenState fun h => ⟨h, rfl, rfl, rfl, fun _ h => h⟩

theorem weaker_clientPinVerifyAuthEx {param : Bytes 32} {buf : List UInt8} {proto : UInt8} :
    Preserves (World.Weaker w₀) (clientPinVerifyAuthEx P param buf proto) :=
  weaker_usageTimeObserver.bind fun _ => preserves_get.bind fun _ => preserves_failIf.bind fun _ =>
    preserves_get.bind fun _ => preserves_failIf.bind fun _ =>
    ignores_weaker.preserves touches_emit_tokenVerified (by decide)

theorem weaker_regenerateKeyAgreement {slot : Slot} :
    Preserves (World.Weaker w₀) (regenerateKeyAgreement slot) :=
  preserves_get.bind fun _ => (ignores_weaker.preserves touches_drawScalar (by decide)).bind fun _ =>
    preserves_weaker fun _ => weaker_setToken fun h => ⟨h, rfl, rfl, rfl, fun _ h => h⟩

theorem weaker_getKeyAgreement {proto : UInt8} :
    Preserves (World.Weaker w₀) (getKeyAgreement P proto) := by
  refine preserves_encode.bind fun _ => preserves_encode.bind fun _ => preserves_get.bind fun _ =>
    (preserves_onlyIf ?_).bind fun _ => preserves_get.bind fun _ => preserves_encode.bind fun _ =>
    preserves_encode.bind fun _ => preserves_pure
  exact preserves_get.bind fun _ => (ignores_weaker.preserves touches_drawing (by decide)).bind fun _ =>
    preserves_weaker fun _ => weaker_setToken fun h => ⟨h, rfl, rfl, rfl, fun _ h => h⟩

end Writes

/-! ## Authorised operations -/

/-- What a request asks of a token: the MAC it shows over a message, a permission, and the RP ID that
the permission is for. -/
structure Demand where
  pinProtocol : UInt8
  param : Bytes 32
  message : List UInt8
  permission : UInt8
  rpId : Option (List UInt8)

def MakeCredential.demand (MC : MakeCredential) : Demand where
  pinProtocol := MC.pinProtocol
  param := MC.pinUvAuthParam.param
  message := MC.clientDataHash.toList
  permission := permissionMc
  rpId := some MC.rp.bytes

def GetAssertion.demand (GA : GetAssertion) : Demand where
  pinProtocol := GA.pinProtocol
  param := GA.pinUvAuthParam.param
  message := GA.clientDataHash.toList
  permission := permissionGa
  rpId := some GA.rp.bytes

def CredMgmt.demand (CM : CredMgmt) : Demand where
  pinProtocol := CM.pinProtocol
  param := CM.pinUvAuthParam.param
  message := CM.hashed
  permission := permissionCm
  rpId := none

/-- The record allows what is asked of it. -/
structure PinUvAuthToken.Allows (P : Platform) (t : PinUvAuthToken) (d : Demand) : Prop where
  inUse : t.state.inUse = true
  verifies : clientPinVerify P.prims t.token d.message d.param d.pinProtocol = true
  permission : t.state.permissions &&& d.permission ≠ 0
  rpId : ∀ rpId ∈ d.rpId, t.state.permissionsRpIdPresent = true →
    t.state.permissionsRpIdHash = P.prims.sha256 rpId

/-- The only checks of a MAC since `w` were under the record of a slot. -/
def World.VerifiedOnly (w w' : World) (slot : Slot) : Prop :=
  ∀ e ∈ w'.verified, e ∈ w.verified ∨ ∃ t m a, e = .tokenVerified slot t m a

section Authorised

variable {P : Platform} {w w' : World}

theorem PinUvAuthToken.Allows.of_within {t t' : PinUvAuthToken} {d : Demand} (h : t'.Allows P d)
    (ht : t'.Within t) : t.Allows P d where
  inUse := ht.inUse
  verifies := ht.token ▸ h.verifies
  permission := ht.permissions _ h.permission
  rpId := fun rpId hrp hpresent => by
    rw [← ht.rpIdHash]
    exact h.rpId rpId hrp (ht.rpId.trans hpresent)

/-- The record was not used up before. -/
theorem PinUvAuthToken.Allows.not_spent {t : PinUvAuthToken} {d : Demand} (h : t.Allows P d)
    (hd : d.permission ∈ [permissionMc, permissionGa, permissionCm]) : ¬ t.Spent :=
  fun hs => h.permission (hs h.inUse _ hd)

theorem World.VerifiedOnly.of_eq {slot : Slot} (h : w'.verified = w.verified) :
    w.VerifiedOnly w' slot := by
  intro e he
  rw [h] at he
  exact .inl he

/-- `ctap_client_pin_verify_auth_ex` accepts. -/
theorem clientPinVerifyAuthEx_ok {param : Bytes 32} {buf : List UInt8} {proto : UInt8}
    (h : clientPinVerifyAuthEx P param buf proto w = .ok () w') :
    (w'.token (slotOf proto)).state.inUse = true ∧
      clientPinVerify P.prims (w'.token (slotOf proto)).token buf param proto = true ∧
      w.VerifiedOnly w' (slotOf proto) ∧ w.Weaker w' := by
  have hweak : w.Weaker w' := weaker_clientPinVerifyAuthEx.ok (.refl w) h
  unfold clientPinVerifyAuthEx at h
  obtain ⟨_, w₁, hobs, h⟩ := bind_eq_ok.mp h
  have hver : w₁.verified = w.verified := (touches_usageTimeObserver .verified (by decide)).ok hobs
  rw [get_bind, failIf_bind_eq_ok, get_bind, failIf_bind_eq_ok, emit_eq_ok] at h
  obtain ⟨hu, hv, rfl⟩ := h
  refine ⟨not_not.mp hu, not_not.mp hv, fun e he => ?_, hweak⟩
  have he' : e ∈ (w₁.trace ++ [Event.tokenVerified (slotOf proto) (w₁.token (slotOf proto)).token buf
      (param.toList.take (authParamSize proto))]).filter Event.isVerification := he
  rw [List.filter_append, List.mem_append] at he'
  rcases he' with he' | he'
  · exact .inl (hver ▸ he')
  · obtain ⟨he', -⟩ := List.mem_filter.mp he'
    exact .inr ⟨_, _, _, List.mem_singleton.mp he'⟩

theorem verifyPermissions_iff {slot : Slot} {m : UInt8} :
    clientPinVerifyPermissions w slot m = true ↔ (w.token slot).state.permissions &&& m ≠ 0 := by
  simp [clientPinVerifyPermissions]

theorem verifyPermissionsRpId_iff {slot : Slot} {h : Bytes 32} :
    clientPinVerifyPermissionsRpId w slot h = true ↔
      ((w.token slot).state.permissionsRpIdPresent = true → (w.token slot).state.permissionsRpIdHash = h) := by
  unfold clientPinVerifyPermissionsRpId
  cases (w.token slot).state.permissionsRpIdPresent <;> simp

/-! ### authenticatorMakeCredential -/

theorem verifyMakeCredentialAuth_ok {MC : MakeCredential}
    (h : verifyMakeCredentialAuth P MC w = .ok () w') :
    w.VerifiedOnly w' (slotOf MC.pinProtocol) ∧ w.Weaker w' ∧ (clientPinIsSet w = true →
      (w'.token (slotOf MC.pinProtocol)).state.inUse = true ∧
      clientPinVerify P.prims (w'.token (slotOf MC.pinProtocol)).token MC.clientDataHash.toList
        MC.pinUvAuthParam.param MC.pinProtocol = true ∧
      (w'.token (slotOf MC.pinProtocol)).state.permissions &&& permissionMc ≠ 0) := by
  unfold verifyMakeCredentialAuth at h
  rw [get_bind, ite_eq_ok] at h
  rcases h with ⟨hset, h⟩ | ⟨hset, h⟩
  · rw [failIf_bind_eq_ok] at h
    obtain ⟨⟨⟩, w₁, hauth, h⟩ := bind_eq_ok.mp h.2
    rw [get_bind, failIf_bind_eq_ok, get_bind, failIf_eq_ok] at h
    obtain ⟨-, hperm, rfl⟩ := h
    obtain ⟨hu, hv, honly, hweak⟩ := clientPinVerifyAuthEx_ok hauth
    exact ⟨honly, hweak, fun _ => ⟨hu, hv, verifyPermissions_iff.mp (not_not.mp hperm)⟩⟩
  · obtain ⟨-, rfl⟩ := pure_eq_ok.mp h
    exact ⟨.of_eq rfl, .refl _, fun hset' => absurd hset' hset⟩

theorem makeCredentialAuthData_spent {MC : MakeCredential} {h : Bytes 32} {l : Bytes 16}
    {out : List UInt8} (hd : makeCredentialAuthData P MC h l w = .ok out w') :
    (w'.token (slotOf MC.pinProtocol)).Spent := by
  unfold makeCredentialAuthData at hd
  obtain ⟨⟨head, attested⟩, w₁, -, hd⟩ := bind_eq_ok.mp hd
  obtain ⟨⟨⟩, w₂, hclear, hd⟩ := bind_eq_ok.mp hd
  obtain ⟨ext, w₃, hext, hd⟩ := bind_eq_ok.mp hd
  obtain ⟨-, rfl⟩ := pure_eq_ok.mp hd
  have ht : w'.token = w₂.token := (touches_ctapExtensionsEncodeOutput .token (by decide)).ok hext
  rw [ht]
  exact clearPinFlags_spent hclear

/-- A successful authenticatorMakeCredential: it uses its record up, and with a PIN set the record
allowed it. -/
theorem ctapMakeCredential_ok {request out : List UInt8}
    (h : ctapMakeCredential P request w = .ok out w') :
    ∃ MC, parseMakeCredential request = .ok MC ∧ (w'.token (slotOf MC.pinProtocol)).Spent ∧
      w.VerifiedOnly w' (slotOf MC.pinProtocol) ∧
      (clientPinIsSet w = true → (w.token (slotOf MC.pinProtocol)).Allows P MC.demand) := by
  unfold ctapMakeCredential at h
  obtain ⟨MC, hparse, h⟩ := ctapCheck_bind_eq_ok.mp h
  obtain ⟨⟨⟩, w₁, hsel, h⟩ := bind_eq_ok.mp h
  have htouch := touches_onlyIf (c := MC.pinUvAuthParam.empty = true) touches_selectByTouch
  have hset₁ : clientPinIsSet w₁ = clientPinIsSet w := by
    have : w₁.pinState = w.pinState := (htouch .pinState (by decide)).ok hsel
    unfold clientPinIsSet
    rw [show w₁.state.isPinSet = w.state.isPinSet from congrArg Prod.fst this]
  have htok₁ : w₁.token = w.token := (htouch .token (by decide)).ok hsel
  have hver₁ : w₁.verified = w.verified := (htouch .verified (by decide)).ok hsel
  obtain ⟨-, h⟩ := failIf_bind_eq_ok.mp h
  obtain ⟨⟨⟩, w₂, hauth, h⟩ := bind_eq_ok.mp h
  have hset₂ : clientPinIsSet w₂ = clientPinIsSet w₁ := by
    have : w₂.pinState = w₁.pinState := (touches_verifyMakeCredentialAuth .pinState (by decide)).ok hauth
    unfold clientPinIsSet
    rw [show w₂.state.isPinSet = w₁.state.isPinSet from congrArg Prod.fst this]
  obtain ⟨honly, hweak, hallow⟩ := verifyMakeCredentialAuth_ok hauth
  obtain ⟨-, h⟩ := failIf_bind_eq_ok.mp h
  rw [get_bind] at h
  dsimp only [ctapDeriveRpIdInfo] at h
  rw [get_bind, get_bind] at h
  obtain ⟨hrp, h⟩ := failIf_bind_eq_ok.mp h
  have hver : w'.verified = w₂.verified :=
    (((touches_checkExcludeList.mono (by decide)).bind fun _ => touches_encode.bind fun _ =>
      touches_encode.bind fun _ => frames_get.bind fun _ => touches_encode.bind fun _ =>
      (touches_makeCredentialAuthData.mono (by decide)).bind fun _ => touches_encode.bind fun _ =>
      touches_encode.bind fun _ => (touches_attestationSignature.mono (by decide)).bind fun _ =>
      (touches_cborEncodeAttestationStatement.mono (by decide)).bind fun _ =>
      touches_encode.bind fun _ => frames_pure :
      Touches [.inputs, .hmacOutputs, .signatures, .counter, .assertionEvents, .rkFiles, .rkChanges, .rkStored,
        .stateFile, .journal, .token] _)
      .verified (by decide)).ok h
  obtain ⟨⟨⟩, w₃, -, h⟩ := bind_eq_ok.mp h
  obtain ⟨map, w₄, -, h⟩ := bind_eq_ok.mp h
  obtain ⟨map, w₅, -, h⟩ := bind_eq_ok.mp h
  rw [get_bind] at h
  obtain ⟨map, w₆, -, h⟩ := bind_eq_ok.mp h
  obtain ⟨authData, w₇, hdata, h⟩ := bind_eq_ok.mp h
  have htok : w'.token = w₇.token :=
    ((touches_encode.bind fun _ => touches_encode.bind fun _ => touches_attestationSignature.bind fun _ =>
      (touches_cborEncodeAttestationStatement.mono (by decide)).bind fun _ =>
      touches_encode.bind fun _ => frames_pure : Touches [.inputs, .signatures] _) .token (by decide)).ok h
  refine ⟨MC, hparse, htok ▸ makeCredentialAuthData_spent hdata, fun e he => ?_, fun hset => ?_⟩
  · rw [hver] at he
    exact hver₁ ▸ honly e he
  · have hset' : clientPinIsSet w₁ = true := hset₁.trans hset
    obtain ⟨hu, hv, hperm⟩ := hallow hset'
    have hrp' := verifyPermissionsRpId_iff.mp (by simpa [hset₂, hset'] using hrp)
    have hallows : (w₂.token (slotOf MC.pinProtocol)).Allows P MC.demand :=
      ⟨hu, hv, hperm, fun rpId hmem hp => by
        obtain rfl := Option.some.inj hmem
        exact hrp' hp⟩
    exact hallows.of_within (htok₁ ▸ hweak _ hu)

/-! ### authenticatorGetAssertion -/

/-- A successful check in `ctap_get_assertion` records the user verification. -/
theorem verifyGetAssertionAuth_ok {GA : GetAssertion}
    (h : verifyGetAssertionAuth P GA (P.prims.sha256 GA.rp.bytes) w = .ok () w') :
    w.VerifiedOnly w' (slotOf GA.pinProtocol) ∧
      (w'.ga.userVerified = 0 ∨
        w'.ga.userVerified = 1 ∧ (w.token (slotOf GA.pinProtocol)).Allows P GA.demand) := by
  unfold verifyGetAssertionAuth at h
  rw [ite_eq_ok] at h
  rcases h with ⟨-, h⟩ | ⟨-, h⟩
  · obtain ⟨-, h⟩ := failIf_bind_eq_ok.mp h
    obtain ⟨⟨⟩, w₁, hauth, h⟩ := bind_eq_ok.mp h
    rw [get_bind, failIf_bind_eq_ok, get_bind, failIf_bind_eq_ok, get_bind, failIf_bind_eq_ok,
      modify_eq_ok] at h
    obtain ⟨-, hperm, hrp, rfl⟩ := h
    obtain ⟨hu, hv, honly, hweak⟩ := clientPinVerifyAuthEx_ok hauth
    have hallows : (w₁.token (slotOf GA.pinProtocol)).Allows P GA.demand :=
      ⟨hu, hv, verifyPermissions_iff.mp (not_not.mp hperm), fun rpId hmem hp => by
        obtain rfl := Option.some.inj hmem
        exact verifyPermissionsRpId_iff.mp (not_not.mp hrp) hp⟩
    exact ⟨honly, .inr ⟨rfl, hallows.of_within (hweak _ hu)⟩⟩
  · obtain rfl := modify_eq_ok.mp h
    exact ⟨.of_eq rfl, .inl rfl⟩

variable {request : List UInt8}

theorem AssertionRun.verifiedOnly (A : AssertionRun P request w w') :
    w.VerifiedOnly w' (slotOf A.GA.pinProtocol) := by
  have h₁ : A.parsed.verified = w.verified :=
    (touches_parseGetAssertionRequest .verified (by decide)).ok A.parse
  have h₂ : w'.verified = A.verified.verified := by
    calc w'.verified = A.signed.verified := (touches_saveCredentialList .verified (by decide)).ok A.save
      _ = A.extended.verified := (touches_encodeAssertionResponse .verified (by decide)).ok A.sign
      _ = A.made.verified := (touches_assertionExtensions .verified (by decide)).ok A.extend
      _ = A.named.verified := (touches_makeAssertionAuthData .verified (by decide)).ok A.make
      _ = A.listed.verified := (touches_onlyIf touches_hideName .verified (by decide)).ok A.name
      _ = A.verified.verified := (touches_buildFilteredCredentialList .verified (by decide)).ok A.list
  intro e he
  rw [h₂] at he
  rw [← h₁]
  exact (verifyGetAssertionAuth_ok A.verify).1 e he

/-- A touch uses the record up. -/
theorem AssertionRun.spent (A : AssertionRun P request w w') (hup : A.GA.options.up ≠ .no) :
    (w'.token (slotOf A.GA.pinProtocol)).Spent := by
  obtain ⟨head, -, -, -, -, hclear⟩ := makeAssertionAuthData_ok A.make
  obtain ⟨w₁, w₂, hc, htok⟩ := hclear hup
  have h : w'.token = A.made.token := by
    calc w'.token = A.signed.token := (touches_saveCredentialList .token (by decide)).ok A.save
      _ = A.extended.token := (touches_encodeAssertionResponse .token (by decide)).ok A.sign
      _ = A.made.token := (touches_assertionExtensions .token (by decide)).ok A.extend
  rw [h, htok]
  exact clearPinFlags_spent hc

/-- An assertion with user verification was authorised. -/
theorem AssertionRun.allows (A : AssertionRun P request w w') {creds : List CredentialDescriptor}
    {cred : CredentialDescriptor} {authData : List UInt8} (h : Asserted P w w' A.GA creds cred authData)
    (huv : authDataFlags authData &&& (4 : UInt8) ≠ 0) :
    (w.token (slotOf A.GA.pinProtocol)).Allows P A.GA.demand := by
  have htok : A.parsed.token = w.token := (touches_parseGetAssertionRequest .token (by decide)).ok A.parse
  have hkept : w'.ga.userVerified = A.verified.ga.userVerified := by
    obtain ⟨-, hga₃, -⟩ := buildFilteredCredentialList_ok A.list
    obtain ⟨⟨_, hga₄⟩, -⟩ := hideName_ok A.name
    obtain ⟨_, hga₅, -⟩ := makeAssertionAuthData_ok A.make
    obtain ⟨⟨_, _, hga₆⟩, -⟩ := assertionExtensions_ok A.extend
    rw [(saveCredentialList_ok A.save).2.2.2.2.2.2, (encodeAssertionResponse_ok A.sign).1, hga₆, hga₅, hga₄, hga₃]
  rcases (verifyGetAssertionAuth_ok A.verify).2 with h₀ | ⟨-, hallows⟩
  · rw [h.flags.uv, hkept, h₀] at huv
    exact absurd rfl huv
  · exact htok ▸ hallows

/-! ### authenticatorCredentialManagement -/

theorem ctapCredentialManagement_ok {out : List UInt8}
    (h : ctapCredentialManagement P request w = .ok out w') :
    ∃ CM, parseCredentialManagementRequest request = .ok CM ∧
      (CM.subCommand ≠ 3 ∧ CM.subCommand ≠ 5 →
        (w.token (slotOf CM.pinProtocol)).Allows P CM.demand) := by
  unfold ctapCredentialManagement at h
  obtain ⟨CM, hparse, h⟩ := ctapCheck_bind_eq_ok.mp h
  rw [bind_eq_ok] at h
  obtain ⟨⟨⟩, w₁, hauth, -⟩ := h
  refine ⟨CM, hparse, fun hsub => ?_⟩
  unfold verifyPinAuthForCredentialManagement at hauth
  rcases ite_eq_ok.mp hauth with ⟨hsub', -⟩ | ⟨-, hauth⟩
  · rcases hsub' with h₃ | h₅
    · exact absurd h₃ hsub.1
    · exact absurd h₅ hsub.2
  obtain ⟨-, hauth⟩ := failIf_bind_eq_ok.mp hauth
  obtain ⟨-, hauth⟩ := failIf_bind_eq_ok.mp hauth
  rw [bind_eq_ok] at hauth
  obtain ⟨⟨⟩, w₂, hex, hauth⟩ := hauth
  obtain ⟨hu, hv, -, hweak⟩ := clientPinVerifyAuthEx_ok hex
  rw [get_bind, failIf_bind_eq_ok] at hauth
  have hallows : (w₂.token (slotOf CM.pinProtocol)).Allows P CM.demand :=
    ⟨hu, hv, verifyPermissions_iff.mp (not_not.mp hauth.1), fun _ h => by cases h⟩
  exact hallows.of_within (hweak _ hu)

end Authorised

/-! ## Commands that add nothing -/

/-- What the commands that check a pinUvAuthParam do besides the token records. -/
def authFreeParts : List Part :=
  [.stateFile, .journal, .counter, .rkFiles, .rkChanges, .rkStored, .ga, .cm, .upDisabled, .inputs, .hmacOutputs, .signatures,
    .assertionEvents]

section Commands

variable {P : Platform} {w₀ : World} {I : World → Prop} {request : List UInt8}
  (hI : Ignores authFreeParts I)
  (hex : ∀ param buf proto, Preserves I (clientPinVerifyAuthEx P param buf proto))

include hI hex

theorem preserves_ctapMakeCredential_of_auth (hclear : ∀ slot, Preserves I (clearPinFlags slot)) :
    Preserves I (ctapMakeCredential P request) := by
  have hfree {α : Type} {m : CtapM α} {S : List Part} (hm : Touches S m) (hS : S ⊆ authFreeParts) :
      Preserves I m := hI.preserves hm hS
  have hauth {MC : MakeCredential} : Preserves I (verifyMakeCredentialAuth P MC) :=
    preserves_get.bind fun _ => preserves_ite
      (fun _ => preserves_failIf.bind fun _ => Preserves.bind (hex _ _ _) fun _ =>
        preserves_get.bind fun _ => preserves_failIf.bind fun _ => preserves_get.bind fun _ =>
        preserves_failIf)
      fun _ => preserves_pure
  have hdata {MC : MakeCredential} {h : Bytes 32} {l : Bytes 16} :
      Preserves I (makeCredentialAuthData P MC h l) :=
    (hfree touches_ctapMakeAuthData_some (by decide)).bind fun (_, _) =>
      (hclear _).bind fun _ =>
      (hfree touches_ctapExtensionsEncodeOutput (by decide)).bind fun _ => preserves_pure
  exact preserves_ctapCheck.bind fun _ =>
    (preserves_onlyIf (hfree touches_selectByTouch (by decide))).bind fun _ =>
    preserves_failIf.bind fun _ => hauth.bind fun _ => preserves_failIf.bind fun _ =>
    preserves_get.bind fun _ => preserves_get.bind fun _ => preserves_get.bind fun _ =>
    preserves_failIf.bind fun _ => (hfree touches_checkExcludeList (by decide)).bind fun _ =>
    preserves_encode.bind fun _ => preserves_encode.bind fun _ => preserves_get.bind fun _ =>
    preserves_encode.bind fun _ => hdata.bind fun _ => preserves_encode.bind fun _ =>
    preserves_encode.bind fun _ => (hfree touches_attestationSignature (by decide)).bind fun _ =>
    (hfree touches_cborEncodeAttestationStatement (by decide)).bind fun _ =>
    preserves_encode.bind fun _ => preserves_pure

theorem preserves_ctapGetAssertion_of_auth (hclear : ∀ slot, Preserves I (clearPinFlags slot)) :
    Preserves I (ctapGetAssertion P request) := by
  have hfree {α : Type} {m : CtapM α} {S : List Part} (hm : Touches S m) (hS : S ⊆ authFreeParts) :
      Preserves I m := hI.preserves hm hS
  have hauth {GA : GetAssertion} {h : Bytes 32} : Preserves I (verifyGetAssertionAuth P GA h) :=
    preserves_ite
      (fun _ => preserves_failIf.bind fun _ => Preserves.bind (hex _ _ _) fun _ =>
        preserves_get.bind fun _ => preserves_failIf.bind fun _ => preserves_get.bind fun _ =>
        preserves_failIf.bind fun _ => preserves_get.bind fun _ => preserves_failIf.bind fun _ =>
        hfree touches_modifyGa (by decide))
      fun _ => hfree touches_modifyGa (by decide)
  have hmake {GA : GetAssertion} {h : Bytes 32} {l : Bytes 16} :
      Preserves I (makeAssertionAuthData P GA h l) :=
    (hfree touches_deviceDisableUp (by decide)).bind fun _ =>
      Preserves.bind (hfree ((touches_ctapMakeAuthData_none.map.mono (by decide)).tryCatch fun _ =>
        (touches_deviceDisableUp.mono (by decide)).bind fun _ => frames_throw :
        Touches [.upDisabled, .ga, .inputs, .counter, .assertionEvents] _) (by decide)) fun _ =>
      (hfree touches_deviceDisableUp (by decide)).bind fun _ =>
      (preserves_onlyIf (hclear _)).bind fun _ => preserves_get.bind fun _ =>
      hfree touches_modifyGa (by decide)
  exact (hfree touches_parseGetAssertionRequest (by decide)).bind fun _ =>
    (preserves_onlyIf (hfree touches_selectByTouch (by decide))).bind fun _ =>
    preserves_failIf.bind fun _ => preserves_get.bind fun _ => hauth.bind fun _ =>
    (hfree touches_buildFilteredCredentialList (by decide)).bind fun _ => preserves_failIf.bind fun _ =>
    preserves_get.bind fun _ => preserves_encode.bind fun _ => preserves_get.bind fun _ =>
    (preserves_onlyIf (hfree touches_hideName (by decide))).bind fun _ => hmake.bind fun _ =>
    (hfree touches_assertionExtensions (by decide)).bind fun _ => preserves_get.bind fun _ =>
    (hfree touches_encodeAssertionResponse (by decide)).bind fun _ =>
    (hfree touches_encodeCount (by decide)).bind fun _ => preserves_encode.bind fun _ =>
    (hfree touches_saveCredentialList (by decide)).bind fun _ => preserves_pure

theorem preserves_ctapCredentialManagement_of_auth :
    Preserves I (ctapCredentialManagement P request) :=
  preserves_ctapCheck.bind fun _ => Preserves.bind
    (preserves_ite (fun _ => preserves_pure) fun _ => preserves_failIf.bind fun _ =>
      preserves_failIf.bind fun _ => Preserves.bind (hex _ _ _) fun _ => preserves_get.bind fun _ =>
      preserves_failIf.bind fun _ => preserves_ite
        (fun _ => preserves_get.bind fun _ => preserves_failIf)
        fun _ => preserves_get.bind fun _ => preserves_failIf)
    fun _ => hI.preserves touches_credMgmtCommand (by decide)

omit hI hex

theorem weaker_ctapMakeCredential : Preserves (World.Weaker w₀) (ctapMakeCredential P request) :=
  preserves_ctapMakeCredential_of_auth (ignores_weaker.mono (by decide))
    (fun _ _ _ => weaker_clientPinVerifyAuthEx) fun _ => weaker_clearPinFlags

theorem weaker_ctapGetAssertion : Preserves (World.Weaker w₀) (ctapGetAssertion P request) :=
  preserves_ctapGetAssertion_of_auth (ignores_weaker.mono (by decide))
    (fun _ _ _ => weaker_clientPinVerifyAuthEx) fun _ => weaker_clearPinFlags

theorem weaker_ctapCredentialManagement :
    Preserves (World.Weaker w₀) (ctapCredentialManagement P request) :=
  preserves_ctapCredentialManagement_of_auth (ignores_weaker.mono (by decide))
    fun _ _ _ => weaker_clientPinVerifyAuthEx

end Commands

/-! ## authenticatorClientPIN -/

/-- A token as it is issued. -/
structure Issuance where
  slot : Slot
  token : Bytes 32
  permissions : UInt8
  rpId : Option (List UInt8)

def Issuance.event (i : Issuance) : Event := .tokenIssued i.slot i.token i.permissions i.rpId

/-- The record holds the issued token, with no more than it was issued for. -/
structure Issuance.Holds (P : Platform) (i : Issuance) (t : PinUvAuthToken) : Prop where
  token : t.token = i.token
  permissions : ∀ m, t.state.permissions &&& m ≠ 0 → i.permissions &&& m ≠ 0
  rpId : ∀ rpId ∈ i.rpId, t.state.permissionsRpIdPresent = true ∧
    t.state.permissionsRpIdHash = P.prims.sha256 rpId

/-- From `w` to `w'` a correct PIN was entered and a token issued; it is the only one in use. -/
structure World.Issues (P : Platform) (w w' : World) (i : Issuance) : Prop where
  event : w'.issued = w.issued ++ [i.event]
  compared : w'.pinChecks = w.pinChecks ++ [true]
  holds : i.Holds P (w'.token i.slot)
  others : ∀ s ≠ i.slot, (w'.token s).state.inUse = false

section ClientPin

variable {P : Platform} {w w' : World}

theorem resetPinAttempts_ok (w : World) : ∃ w', resetPinAttempts P w = .ok () w' := by
  obtain ⟨_, w', h, -⟩ := (resetPinAttempts_account (P := P) w).exists_ok
  exact ⟨w', h⟩

/-- The two resets behind a correct PIN. -/
def World.withNewTokens (w : World) : World := (w.resetToken .p1).resetToken .p2

theorem withNewTokens_idle (w : World) (s : Slot) : (w.withNewTokens.token s).state = {} := by
  cases s <;> simp [World.withNewTokens, World.resetToken, World.setToken]

/-- The record behind `begin_using_pinUvAuthToken`. -/
def World.beginUsing (w : World) (slot : Slot) (perms : UInt8) : World :=
  let now := w.inputs.millis w.millisPos
  let w : World := { w with
    millisPos := w.millisPos + 1
    trace := w.trace ++ [.tokenStarted slot now] }
  w.modifyTokenState slot fun s => { s with
    userPresent := false
    permissions := perms
    userVerified := true
    inUse := true
    usageTimerStartMs := now
    usageTimerLastUsedMs := now }

/-- The record behind `associate_permissions_rp_id`. -/
def World.associate (P : Platform) (w : World) (slot : Slot) (rpId : List UInt8) : World :=
  if rpId.length = 0 then w
  else w.modifyTokenState slot fun s => { s with
    permissionsRpIdHash := P.prims.sha256 rpId
    permissionsRpIdPresent := true }

theorem associatePermissionsRpId_eq (w : World) (slot : Slot) (rpId : List UInt8) :
    associatePermissionsRpId P rpId slot w = .ok () (w.associate P slot rpId) := by
  unfold associatePermissionsRpId World.associate
  by_cases h : rpId.length = 0
  · rw [if_pos h, if_pos h]
    rfl
  · rw [if_neg h, if_neg h]
    rfl

theorem encryptPinUvAuthToken_ok (key : Bytes 32) (proto : UInt8) (w : World) :
    ∃ enc w', encryptPinUvAuthToken P key proto w = .ok enc w' ∧ enc.length ≤ 48 := by
  unfold encryptPinUvAuthToken
  rw [get_bind]
  by_cases h : proto = 1
  · rw [if_pos h]
    exact ⟨_, _, rfl, by simp⟩
  · rw [if_neg h]
    exact ⟨_, _, rfl, by simp⟩

/-- What `add_enc_pinUvAuthToken` issues from a state. -/
def World.issuance (w : World) (slot : Slot) (perms : UInt8) (rpId : List UInt8) : Issuance where
  slot := slot
  token := (w.withNewTokens.token slot).token
  permissions := perms
  rpId := if rpId.length = 0 then none else some rpId

theorem issuance_holds (w : World) (slot : Slot) (perms : UInt8) (rpId : List UInt8) :
    (w.issuance slot perms rpId).Holds P
      (((w.withNewTokens.beginUsing slot perms).associate P slot rpId).token slot) := by
  unfold World.associate
  by_cases h : rpId.length = 0
  · rw [if_pos h]
    refine ⟨?_, ?_, ?_⟩
    · simp [World.beginUsing, World.modifyTokenState, World.setToken, World.issuance]
    · simp [World.beginUsing, World.modifyTokenState, World.setToken, World.issuance]
    · simp [World.issuance, h]
  · rw [if_neg h]
    refine ⟨?_, ?_, ?_⟩
    · simp [World.beginUsing, World.modifyTokenState, World.setToken, World.issuance]
    · simp [World.beginUsing, World.modifyTokenState, World.setToken, World.issuance]
    · simp [World.beginUsing, World.modifyTokenState, World.setToken, World.issuance, h]

theorem issuance_others (w : World) {slot s : Slot} (perms : UInt8) (rpId : List UInt8) (hs : s ≠ slot) :
    (((w.withNewTokens.beginUsing slot perms).associate P slot rpId).token s).state.inUse = false := by
  have hidle := congrArg TokenState.inUse (withNewTokens_idle w s)
  unfold World.associate
  split
  · simpa [World.beginUsing, World.modifyTokenState, World.setToken, hs] using hidle
  · simpa [World.beginUsing, World.modifyTokenState, World.setToken, hs] using hidle

/-- Nothing was issued and, unless the device is now locked, no record allows more. -/
structure World.AddsNothing (w w' : World) : Prop where
  weaker : 0 < w'.state.remainingTries → w.Weaker w'
  issued : w'.issued = w.issued

theorem World.AddsNothing.refl (w : World) : w.AddsNothing w := ⟨fun _ => .refl w, rfl⟩

/-- The parts that do not matter for it. -/
def addsFreeParts : List Part :=
  [.stateFile, .journal, .counter, .rkFiles, .rkChanges, .rkStored, .identity, .keys, .boot, .ga, .cm, .upDisabled, .inputs,
    .pinChecks, .verified, .usage, .hmacOutputs, .signatures, .assertionEvents, .fixed]

theorem ignores_addsNothing {w₀ : World} : Ignores addsFreeParts (World.AddsNothing w₀) := by
  intro w w' h hw
  have htok : w'.token = w.token := h .token (by decide)
  have htries : w'.state.remainingTries = w.state.remainingTries :=
    congrArg (fun x : UInt8 × Int8 × Bytes 16 × Bytes 16 => x.2.1) (h .pinState (by decide))
  have hissued : w'.issued = w.issued := h .issued (by decide)
  exact ⟨fun hpos => (hw.weaker (htries ▸ hpos)).trans (.of_token htok), hissued.trans hw.issued⟩

/-- A program that only weakens records. -/
theorem addsNothing_of_weaker {α : Type} {w₀ : World} {m : CtapM α} {S : List Part}
    (hm : Preserves (World.Weaker w₀) m) (ht : Touches S m) (hS : Part.pinState ∉ S ∧ Part.issued ∉ S) :
    Preserves (World.AddsNothing w₀) m := by
  intro w hw
  have htries : (final m w).state.remainingTries = w.state.remainingTries :=
    congrArg (fun x : UInt8 × Int8 × Bytes 16 × Bytes 16 => x.2.1) (ht .pinState hS.1 w)
  exact ⟨fun hpos => hm w (hw.weaker (htries ▸ hpos)), (ht .issued hS.2 w).trans hw.issued⟩

theorem addsNothing_decrementPinAttempts {w₀ : World} :
    Preserves (World.AddsNothing w₀) (decrementPinAttempts P) := by
  rw [preserves_iff_ends]
  intro w hw
  have hboot : w₀.AddsNothing (if 0 < w.pinBootAttemptsLeft then
      { w with pinBootAttemptsLeft := w.pinBootAttemptsLeft - 1 } else w) := by
    split
    · exact ⟨hw.weaker, hw.issued⟩
    · exact hw
  unfold decrementPinAttempts
  rw [ends_bind, ends_modify, ends_bind, ends_get, ends_ite]
  generalize (if 0 < w.pinBootAttemptsLeft then
      { w with pinBootAttemptsLeft := w.pinBootAttemptsLeft - 1 } else w) = w₁ at hboot
  refine ⟨fun hopen => ?_, fun _ => hboot⟩
  have hpos : 0 < w₁.state.remainingTries := by simpa [clientPinIsLocked] using hopen
  rw [ends_bind, ends_modify, ends_bind]
  refine ends_of_ok (authenticatorWriteState_eq _) ?_
  rw [ends_bind, ends_get, ends_ite]
  have hissued (v : World) : (v.flushed P).issued = v.issued :=
    flushed_view (p := .issued) (by decide)
  refine ⟨fun hlock => ?_, fun _ => ⟨fun _ => hboot.weaker hpos, (hissued _).trans hboot.issued⟩⟩
  -- the last attempt: the records are wiped, and the counter is at its end
  refine ends_of_ok (authenticatorWriteState_eq _) ⟨fun hpos' => ?_,
    (hissued _).trans ((hissued _).trans hboot.issued)⟩
  have hle : w₁.state.remainingTries - 1 ≤ 0 := of_decide_eq_true hlock
  exact absurd hpos' (by
    show ¬ 0 < w₁.state.remainingTries - 1
    rw [Int8.not_lt]
    exact hle)

/-- The branch of a wrong PIN. -/
theorem pinMismatch_adds {α : Type} (proto : UInt8) (w : World) :
    Ends (pinMismatch P proto : CtapM α) w (fun _ _ => False) fun _ w' => w.AddsNothing w' := by
  have hkey : Preserves (World.AddsNothing w) (regenerateKeyAgreement (slotOf proto)) :=
    addsNothing_of_weaker weaker_regenerateKeyAgreement touches_regenerateKeyAgreement (by decide)
  unfold pinMismatch
  rw [ends_bind]
  refine (hkey.ends (.refl w)).mono (fun _ w₁ h₁ => ?_) fun _ _ h => h
  rw [ends_bind]
  refine (addsNothing_decrementPinAttempts.ends h₁).mono (fun _ w₂ h₂ => ?_) fun _ _ h => h
  simp only [ends_bind, ends_get, ends_failIf, ends_failWith]
  exact ⟨fun _ => h₂, fun _ => ⟨fun _ => h₂, fun _ => h₂⟩⟩

/-- The comparison of a PIN, with what follows where it is right. -/
theorem ends_compare {α : Type} {h : Bytes 16} {proto : UInt8} {k : CtapM α} {w : World}
    {Q : α → World → Prop}
    (hk : ∀ w₁, w₁.issued = w.issued → w₁.pinChecks = w.pinChecks ++ [true] →
      Ends k w₁ Q fun _ _ => False) :
    Ends (do
      if ← verifyAgainstStoredPin P h then
        resetPinAttempts P
        k
      else pinMismatch P proto) w Q fun _ w' => w.AddsNothing w' := by
  let matched : Bool := h = P.prims.aesCbcDecrypt P.keyPinEnc w.state.pinHashIv w.state.pinHashEnc
  let w₁ : World := { w with trace := w.trace ++ [.pinCompared matched] }
  have hissued : w₁.issued = w.issued := by simp [World.issued, w₁, Event.isIssue]
  have hchecks : w₁.pinChecks = w.pinChecks ++ [matched] := by
    simp [World.pinChecks, w₁, Event.pinCheck?]
  rw [ends_bind]
  refine ends_of_ok (show verifyAgainstStoredPin P h w = .ok matched w₁ from rfl) ?_
  rw [ends_ite]
  constructor
  · intro hm
    obtain ⟨w₂, hok⟩ := resetPinAttempts_ok (P := P) w₁
    rw [ends_bind]
    refine ends_of_ok hok ?_
    have hissued₂ : w₂.issued = w₁.issued := (touches_resetPinAttempts .issued (by decide)).ok hok
    have hchecks₂ : w₂.pinChecks = w₁.pinChecks := (touches_resetPinAttempts .pinChecks (by decide)).ok hok
    rw [hm] at hchecks
    exact (hk w₂ (hissued₂.trans hissued) (hchecks₂.trans hchecks)).mono (fun _ _ h => h)
      fun _ _ h => h.elim
  · intro hm
    refine (pinMismatch_adds proto w₁).mono (fun _ _ h => h.elim) fun _ w₂ h₂ => ?_
    exact ⟨h₂.weaker, h₂.issued.trans hissued⟩

/-- Before a comparison an error leaves the records as they are. -/
theorem ends_bind_free {α β : Type} {m : CtapM α} {k : α → CtapM β} {S : List Part} {w : World}
    {Q : World → β → World → Prop} (hm : Touches S m) (hS : ∀ p ∈ [Part.token, .pinState, .issued, .pinChecks], p ∉ S)
    (hQ : ∀ w₁ b w', w₁.issued = w.issued → w₁.pinChecks = w.pinChecks → Q w₁ b w' → Q w b w')
    (hk : ∀ a w₁, m w = .ok a w₁ →
      Ends (k a) w₁ (Q w₁) fun e w' => ∀ s, e = .status s → w₁.AddsNothing w') :
    Ends (m >>= k) w (Q w) fun e w' => ∀ s, e = .status s → w.AddsNothing w' := by
  have hkept {w₁ : World} (hview : ∀ p ∉ S, p.view w₁ = p.view w) :
      w₁.token = w.token ∧ w₁.issued = w.issued ∧ w₁.pinChecks = w.pinChecks :=
    ⟨hview .token (hS _ (by decide)), hview .issued (hS _ (by decide)),
      hview .pinChecks (hS _ (by decide))⟩
  rw [ends_bind]
  refine ends_of_runs (fun a w₁ hok => ?_) fun e w₁ herr _ _ => ?_
  · obtain ⟨htok, hissued, hchecks⟩ := hkept fun p hp => (hm p hp).ok hok
    refine (hk a w₁ hok).mono (fun b w' h => hQ w₁ b w' hissued hchecks h) fun e w' h s hs => ?_
    exact ⟨fun hpos => (World.Weaker.of_token htok).trans ((h s hs).weaker hpos),
      (h s hs).issued.trans hissued⟩
  · obtain ⟨htok, hissued, -⟩ := hkept fun p hp => (hm p hp).error herr
    exact ⟨fun _ => .of_token htok, hissued⟩

theorem World.Issues.of_eq {w₁ : World} {i : Issuance} (h : w₁.Issues P w' i)
    (hi : w₁.issued = w.issued) (hc : w₁.pinChecks = w.pinChecks) : w.Issues P w' i :=
  ⟨hi ▸ h.event, hc ▸ h.compared, h.holds, h.others⟩

/-- `add_enc_pinUvAuthToken` behind a correct PIN. -/
theorem addEnc_matched {w w₁ : World} {key : Bytes 32} {proto perms : UInt8} {rpId : List UInt8}
    (hissued : w₁.issued = w.issued) (hchecks : w₁.pinChecks = w.pinChecks ++ [true]) :
    Ends (do
      resetPinUvAuthToken .p1
      resetPinUvAuthToken .p2
      beginUsingPinUvAuthToken false (slotOf proto) perms
      associatePermissionsRpId P rpId (slotOf proto)
      emit (.tokenIssued (slotOf proto) ((← get).token (slotOf proto)).token perms
        (if rpId.length = 0 then none else some rpId))
      encryptPinUvAuthToken P key proto) w₁
      (fun enc w' => enc.length ≤ 48 ∧ ∃ i, w.Issues P w' i) fun _ _ => False := by
  let slot := slotOf proto
  let w₂ := (w₁.withNewTokens.beginUsing slot perms).associate P slot rpId
  let i := w₁.issuance slot perms rpId
  have hholds : i.Holds P (w₂.token slot) := issuance_holds w₁ slot perms rpId
  rw [ends_bind]
  refine ends_of_ok (resetPinUvAuthToken_eq .p1 w₁) ?_
  rw [ends_bind]
  refine ends_of_ok (resetPinUvAuthToken_eq .p2 _) ?_
  rw [ends_bind]
  refine ends_of_ok (show beginUsingPinUvAuthToken false slot perms w₁.withNewTokens
    = .ok () (w₁.withNewTokens.beginUsing slot perms) from rfl) ?_
  rw [ends_bind]
  refine ends_of_ok (associatePermissionsRpId_eq _ slot rpId) ?_
  rw [ends_bind, ends_get, ends_bind, ends_emit]
  let w₂' : World := { w₂ with
    trace := w₂.trace ++ [.tokenIssued slot (w₂.token slot).token perms
      (if rpId.length = 0 then none else some rpId)] }
  obtain ⟨enc, w₃, henc, hlen⟩ := encryptPinUvAuthToken_ok (P := P) key proto w₂'
  have htok : w₃.token = w₂'.token := (touches_encryptPinUvAuthToken .token (by decide)).ok henc
  have htrace : w₂.trace = w₁.trace ++ [.tokenStarted slot (w₁.inputs.millis w₁.millisPos)] := by
    show (World.associate P _ slot rpId).trace = _
    unfold World.associate
    split <;> rfl
  refine ends_of_ok henc ⟨hlen, i, ?_, ?_, ?_, fun s hs => ?_⟩
  · have h : w₃.issued = w₂'.issued := (touches_encryptPinUvAuthToken .issued (by decide)).ok henc
    rw [h, ← hissued]
    show (w₂.trace ++ [_]).filter Event.isIssue = w₁.trace.filter Event.isIssue ++ [i.event]
    rw [htrace, hholds.token]
    simp [Event.isIssue, Issuance.event, i, World.issuance]
  · have h : w₃.pinChecks = w₂'.pinChecks := (touches_encryptPinUvAuthToken .pinChecks (by decide)).ok henc
    rw [h, ← hchecks]
    show (w₂.trace ++ [_]).filterMap Event.pinCheck? = w₁.trace.filterMap Event.pinCheck?
    rw [htrace]
    simp [Event.pinCheck?]
  · rw [htok]
    exact hholds
  · rw [htok]
    exact issuance_others w₁ perms rpId hs

/-- The response with a token always fits. -/
theorem encodeToken_ok {enc : List UInt8} (h : enc.length ≤ 48) :
    ∃ map encoder, ({ out := [0xa1, 2], room := 1198, remaining := 2 } : Encoder).byteString enc = .ok map ∧
      responseEncoder.close map = .ok encoder := by
  have hle := length_numberBytes_le enc.length 2
  have hlen : (Item.bytes enc).enc.length ≤ 1198 := by
    show (Encoder.numberBytes enc.length 2 ++ enc).length ≤ 1198
    rw [List.length_append]
    omega
  exact ⟨_, _, Encoder.item_eq (e := ⟨[0xa1, 2], 1198, 2⟩) (i := .bytes enc) hlen, rfl⟩

theorem issueToken_ends {CP : ClientPin} {perms : UInt8} {rpId : List UInt8} (w : World) :
    Ends (issueToken P CP perms rpId) w (fun _ w' => ∃ i, w.Issues P w' i)
      fun e w' => ∀ s, e = .status s → w.AddsNothing w' := by
  have hadd : Ends (addEncPinUvAuthToken P CP.keyAgreement.pubkey CP.pinHashEnc CP.pinProtocol perms rpId) w
      (fun enc w' => enc.length ≤ 48 ∧ ∃ i, w.Issues P w' i)
      fun e w' => ∀ s, e = .status s → w.AddsNothing w' := by
    have hQ : ∀ (w w₁ : World) (b : List UInt8) (w' : World), w₁.issued = w.issued →
        w₁.pinChecks = w.pinChecks → (b.length ≤ 48 ∧ ∃ i, w₁.Issues P w' i) →
        b.length ≤ 48 ∧ ∃ i, w.Issues P w' i :=
      fun _ _ _ _ hi hc ⟨hlen, i, h⟩ => ⟨hlen, i, h.of_eq hi hc⟩
    refine ends_bind_free (Q := fun w (enc : List UInt8) w' => enc.length ≤ 48 ∧ ∃ i, w.Issues P w' i) touches_ecdh
      (by decide) (hQ w) fun (key, _) w₁ _ => ?_
    refine ends_bind_free (Q := fun w (enc : List UInt8) w' => enc.length ≤ 48 ∧ ∃ i, w.Issues P w' i)
      (touches_ctapCheck (S := [])) (by decide) (hQ w₁) fun pinHash w₂ _ => ?_
    exact (ends_compare fun w₃ hi hc => addEnc_matched hi hc).mono (fun _ _ h => h) fun _ _ h _ _ => h
  unfold issueToken
  rw [ends_bind]
  refine ends_of_ok (show encode (responseEncoder.createMap 1) w = .ok ⟨[0xa1], 1199, 3⟩ w from rfl) ?_
  rw [ends_bind]
  refine ends_of_ok (show encode (Encoder.int ⟨[0xa1], 1199, 3⟩ 2) w = .ok ⟨[0xa1, 2], 1198, 2⟩ w from rfl) ?_
  rw [ends_bind]
  refine hadd.mono (fun enc w₁ h => ?_) fun _ _ h => h
  obtain ⟨map, encoder, hmap, hclose⟩ := encodeToken_ok h.1
  rw [ends_bind]
  refine ends_of_ok (show encode _ w₁ = .ok map w₁ from ctapCheck_eq_ok.mpr ⟨by rw [hmap]; rfl, rfl⟩) ?_
  rw [ends_bind]
  refine ends_of_ok (show encode _ w₁ = .ok encoder w₁ from ctapCheck_eq_ok.mpr ⟨by rw [hclose]; rfl, rfl⟩) ?_
  exact h.2

/-- No token is in use. -/
def World.Idle (w : World) : Prop := ∀ s, (w.token s).state.inUse = false

theorem verifyCurrentPin_ends {h key : Bytes 32} {proto : UInt8} (w : World) :
    Ends (verifyCurrentPin P h key proto) w (fun _ w' => w'.Idle)
      fun e w' => ∀ s, e = .status s → w.AddsNothing w' := by
  refine ends_bind_free (Q := fun _ _ w' => w'.Idle) (touches_ctapCheck (S := [])) (by decide)
    (fun _ _ _ _ _ h => h) fun pinHash w₁ _ => ?_
  refine (ends_compare (Q := fun _ w' => w'.Idle) fun w₂ _ _ => ?_).mono (fun _ _ h => h) fun _ _ h _ _ => h
  rw [ends_bind]
  refine ends_of_ok (resetPinUvAuthToken_eq .p1 w₂) (ends_of_ok (resetPinUvAuthToken_eq .p2 _) fun s => ?_)
  exact congrArg TokenState.inUse (withNewTokens_idle w₂ s)

theorem clientPinIsSet_of_touches {α : Type} {m : CtapM α} {S : List Part} {a : α} (hm : Touches S m)
    (hS : Part.pinState ∉ S) (h : m w = .ok a w') (hw : clientPinIsSet w = true) :
    clientPinIsSet w' = true := by
  have : w'.pinState = w.pinState := (hm .pinState hS).ok h
  unfold clientPinIsSet at hw ⊢
  rw [show w'.state.isPinSet = w.state.isPinSet from congrArg Prod.fst this]
  exact hw

/-- A PIN is changed: behind it no token is in use. -/
theorem updatePinIfVerified_ends {n : Bytes 80} {len : UInt8} {pub : Bytes 64} {a h : Bytes 32}
    {proto : UInt8} (hset : clientPinIsSet w = true) :
    Ends (updatePinIfVerified P n len pub a (some h) proto) w (fun _ w' => w'.Idle)
      fun e w' => ∀ s, e = .status s → w.AddsNothing w' := by
  refine ends_bind_free (Q := fun _ _ w' => w'.Idle) (touches_failIf (S := [])) (by decide)
    (fun _ _ _ _ _ h => h) fun _ w₁ h₁ => ?_
  have hset₁ := clientPinIsSet_of_touches (touches_failIf (S := [])) (by decide) h₁ hset
  refine ends_bind_free (Q := fun _ _ w' => w'.Idle) touches_ecdh (by decide)
    (fun _ _ _ _ _ h => h) fun (key, _) w₂ h₂ => ?_
  have hset₂ := clientPinIsSet_of_touches touches_ecdh (by decide) h₂ hset₁
  refine ends_bind_free (Q := fun _ _ w' => w'.Idle) (touches_failIf (S := [])) (by decide)
    (fun _ _ _ _ _ h => h) fun _ w₃ h₃ => ?_
  have hset₃ := clientPinIsSet_of_touches (touches_failIf (S := [])) (by decide) h₃ hset₂
  refine ends_bind_free (Q := fun _ _ w' => w'.Idle) (touches_ctapCheck (S := [])) (by decide)
    (fun _ _ _ _ _ h => h) fun _ w₄ h₄ => ?_
  have hset₄ := clientPinIsSet_of_touches (touches_ctapCheck (S := [])) (by decide) h₄ hset₃
  refine ends_bind_free (Q := fun _ _ w' => w'.Idle) (touches_failIf (S := [])) (by decide)
    (fun _ _ _ _ _ h => h) fun _ w₅ h₅ => ?_
  have hset₅ := clientPinIsSet_of_touches (touches_failIf (S := [])) (by decide) h₅ hset₄
  rw [ends_bind]
  have hverify : verifyCurrentPinIfSet P (some h) key proto w₅ = verifyCurrentPin P h key proto w₅ := by
    unfold verifyCurrentPinIfSet onlyIf
    dsimp only
    rw [get_bind, if_pos hset₅]
  have hends : Ends (verifyCurrentPinIfSet P (some h) key proto) w₅ (fun _ w' => w'.Idle)
      fun e w' => ∀ s, e = .status s → w₅.AddsNothing w' := by
    unfold Ends
    rw [hverify]
    exact verifyCurrentPin_ends w₅
  refine hends.mono (fun _ w₆ h₆ => ?_) fun _ _ h => h
  exact ends_of_ok (authenticatorWriteState_eq _) h₆

/-- What a successful authenticatorClientPIN does to the tokens, by its sub-command. -/
inductive PinEffect (P : Platform) (w w' : World) (subCommand : Int) : Prop
  | other (hsub : subCommand ≠ 4) (h : w.AddsNothing w')
  | changed (hsub : subCommand = 4) (h : w'.Idle)
  | issued (hsub : subCommand = 5 ∨ subCommand = 9) (i : Issuance) (h : w.Issues P w' i)

theorem ctapClientPin_ends {request : List UInt8} (w : World) :
    Ends (ctapClientPin P request) w
      (fun _ w' => ∃ CP, parseClientPinRequest request = .ok CP ∧ PinEffect P w w' CP.subCommand)
      fun e w' => ∀ s, e = .status s → w.AddsNothing w' := by
  have hquiet {α : Type} {m : CtapM α} {Q : α → World → Prop} (hm : Preserves (World.AddsNothing w) m)
      (hQ : ∀ a w', w.AddsNothing w' → Q a w') :
      Ends m w Q fun e w' => ∀ s, e = .status s → w.AddsNothing w' :=
    (hm.ends (.refl w)).mono (fun a w' h => hQ a w' h) fun _ _ h _ _ => h
  have hrefl := World.AddsNothing.refl w
  unfold ctapClientPin
  rw [ends_bind, ends_ctapCheck]
  refine ⟨fun CP hparse => ?_, fun _ _ _ _ => hrefl⟩
  rw [ends_bind, ends_failIf]
  refine ⟨fun _ _ _ => hrefl, fun _ => ?_⟩
  rw [ends_bind, ends_failIf]
  refine ⟨fun _ _ _ => hrefl, fun _ => ?_⟩
  rw [ends_ite]
  refine ⟨fun hsub => hquiet (ignores_addsNothing.preserves touches_getPinRetries (by decide))
    fun _ _ h => ⟨CP, hparse, .other (by omega) h⟩, fun _ => ?_⟩
  rw [ends_ite]
  refine ⟨fun hsub => hquiet
    (addsNothing_of_weaker weaker_getKeyAgreement touches_getKeyAgreement (by decide))
    fun _ _ h => ⟨CP, hparse, .other (by omega) h⟩, fun _ => ?_⟩
  rw [ends_ite]
  refine ⟨fun hsub => ends_of_runs (fun _ w' hok => ⟨CP, hparse, .other (by omega) ?_⟩)
    fun _ w' herr _ _ => ?_, fun _ => ?_⟩
  · exact ⟨fun _ => .of_token ((touches_setPin .token (by decide)).ok hok),
      (touches_setPin .issued (by decide)).ok hok⟩
  · exact ⟨fun _ => .of_token ((touches_setPin .token (by decide)).error herr),
      (touches_setPin .issued (by decide)).error herr⟩
  simp only [ends_bind, ends_get, ends_failIf]
  refine ⟨fun _ _ _ => hrefl, fun _ => ⟨fun _ _ _ => hrefl, fun _ => ?_⟩⟩
  rw [ends_ite]
  constructor
  · intro hsub
    unfold changePin
    simp only [ends_bind, ends_get, ends_failIf, ends_pure]
    refine ⟨fun _ _ _ => hrefl, fun hset => ⟨fun _ _ _ => hrefl, fun _ => ?_⟩⟩
    exact (updatePinIfVerified_ends (not_not.mp hset)).mono
      (fun _ _ h => ⟨CP, hparse, .changed hsub h⟩) fun _ _ h => h
  intro _
  rw [ends_ite]
  constructor
  · intro hsub
    unfold getPinToken
    simp only [ends_bind, ends_get, ends_failIf]
    refine ⟨fun _ _ _ => hrefl, fun _ => ⟨fun _ _ _ => hrefl, fun _ => ⟨fun _ _ _ => hrefl, fun _ => ?_⟩⟩⟩
    exact (issueToken_ends w).mono (fun _ _ h => ⟨CP, hparse, h.elim (.issued (.inl hsub))⟩) fun _ _ h => h
  intro _
  rw [ends_ite]
  constructor
  · intro hsub
    unfold getPinUvAuthTokenUsingPinWithPermissions
    simp only [ends_bind, ends_get, ends_failIf]
    refine ⟨fun _ _ _ => hrefl, fun _ => ⟨fun _ _ _ => hrefl, fun _ => ⟨fun _ _ _ => hrefl, fun _ =>
      ⟨fun _ _ _ => hrefl, fun _ => ⟨fun _ _ _ => hrefl, fun _ => ?_⟩⟩⟩⟩⟩
    exact (issueToken_ends w).mono (fun _ _ h => ⟨CP, hparse, h.elim (.issued (.inr hsub))⟩) fun _ _ h => h
  · intro _ _ _
    exact hrefl

end ClientPin

/-! ## Requests -/

section Requests

variable {P : Platform}

/-- A successful changePIN. -/
def Served.changesPin (r : Served) : Prop :=
  commandOf r.cmd = .clientPin ∧ r.status = .ok ∧
    ∃ CP, parseClientPinRequest r.request = .ok CP ∧ CP.subCommand = 4

/-- A successful operation that the user confirmed by touch. -/
def Served.Confirms (r : Served) : Prop :=
  r.status = .ok ∧ (commandOf r.cmd = .makeCredential ∨
    commandOf r.cmd = .getAssertion ∧ ∃ GA, r.ParsesAssertion GA ∧ GA.options.up ≠ .no)

/-- A pinUvAuthParam of the request verified under the issued token. -/
def Served.Presents (r : Served) (i : Issuance) : Prop :=
  ∃ message param, .tokenVerified i.slot i.token message param ∈ r.events

/-- getPinToken or getPinUvAuthTokenUsingPinWithPermissions succeeded, behind a correct PIN. -/
structure Served.Issued (r : Served) (i : Issuance) : Prop where
  command : commandOf r.cmd = .clientPin
  subCommand : ∃ CP, parseClientPinRequest r.request = .ok CP ∧ (CP.subCommand = 5 ∨ CP.subCommand = 9)
  success : r.status = .ok
  compared : r.after.pinChecks = [true]
  event : r.after.issued = [i.event]

/-- What a request demands of a token. -/
inductive Served.Demands (r : Served) : Demand → Prop
  | makeCredential {MC : MakeCredential} (h : commandOf r.cmd = .makeCredential)
      (hp : parseMakeCredential r.request = .ok MC) : r.Demands MC.demand
  | getAssertion {GA : GetAssertion} (h : commandOf r.cmd = .getAssertion) (hp : r.ParsesAssertion GA) :
      r.Demands GA.demand
  | credentialManagement {CM : CredMgmt} (h : commandOf r.cmd = .credentialManagement)
      (hp : parseCredentialManagementRequest r.request = .ok CM) : r.Demands CM.demand

/-- A successful operation that user verification protects. -/
inductive Served.Protected (r : Served) : Prop
  | makeCredential (h : commandOf r.cmd = .makeCredential) (hok : r.status = .ok)
      (hpin : clientPinIsSet r.before = true)
  | getAssertion (h : commandOf r.cmd = .getAssertion) (hok : r.status = .ok) {cred : CredentialDescriptor}
      {authData : List UInt8} {hash : Bytes 32} (hs : .signed cred authData hash ∈ r.events)
      (huv : authDataFlags authData &&& (4 : UInt8) ≠ 0)
  | credentialManagement (h : commandOf r.cmd = .credentialManagement) (hok : r.status = .ok)
      (hsub : ∀ CM, parseCredentialManagementRequest r.request = .ok CM →
        CM.subCommand ≠ 3 ∧ CM.subCommand ≠ 5)

/-- What a request does to the tokens: nothing is added, and a confirmed operation uses up the token
that it presented; or no token is left in use; or one is issued. -/
inductive TokenEffect (P : Platform) (r : Served) : Prop
  | adds (h : 0 < r.after.state.remainingTries → r.before.Weaker r.after) (hi : r.after.issued = []) (hreset : r.resets = false)
      (hchange : ¬ r.changesPin)
      (hspent : r.Confirms → ∀ i, r.Presents i → (r.after.token i.slot).Spent)
  | idle (h : r.after.Idle)
  | issued (i : Issuance) (hi : r.Issued i) (holds : i.Holds P (r.after.token i.slot))
      (others : ∀ s ≠ i.slot, (r.after.token s).state.inUse = false)

/-- The commands that compare no PIN and reset nothing. -/
theorem addsNothing_dispatch {w₀ : World} {c : Command} {request : List UInt8} (hc : c ≠ .clientPin)
    (hr : c ≠ .reset) : Preserves (World.AddsNothing w₀) (dispatch P c request) := by
  refine preserves_get.bind fun _ => preserves_failIf.bind fun _ => preserves_get.bind fun _ =>
    preserves_failIf.bind fun _ => ?_
  cases c with
  | makeCredential =>
    exact addsNothing_of_weaker weaker_ctapMakeCredential touches_ctapMakeCredential (by decide)
  | getAssertion =>
    exact addsNothing_of_weaker weaker_ctapGetAssertion touches_ctapGetAssertion (by decide)
  | getInfo => exact ignores_addsNothing.preserves touches_ctapGetInfo (by decide)
  | clientPin => exact absurd rfl hc
  | reset => exact absurd rfl hr
  | getNextAssertion =>
    exact preserves_get.bind fun _ => preserves_failIf.bind fun _ =>
      ignores_addsNothing.preserves touches_ctapGetNextAssertion (by decide)
  | credentialManagement =>
    exact addsNothing_of_weaker weaker_ctapCredentialManagement touches_ctapCredentialManagement (by decide)
  | selection => exact ignores_addsNothing.preserves touches_ctapSelection (by decide)
  | invalid => exact preserves_throw

/-- A command that fails adds nothing. -/
theorem dispatch_error_adds {c : Command} {request : List UInt8} {w w' : World} {e : CtapError}
    (h : dispatch P c request w = .error (.status e) w') : w.AddsNothing w' := by
  by_cases hc : c = .clientPin
  · subst hc
    exact (ctapClientPin_ends w).error h e rfl
  by_cases hr : c = .reset
  · subst hr
    have hview := (ctapReset_ends w).error h
    exact ⟨fun _ => .of_token (hview .token (by decide)), hview .issued (by decide)⟩
  · exact ((addsNothing_dispatch hc hr).ends (.refl w)).error h

/-- A token that a confirmed operation presented is used up. -/
theorem spent_of_presents {w₁ : World} {slot : Slot} {i : Issuance} {r : Served} {inputs : Inputs}
    (hp : r.Presents i) (htrace : r.after.trace = w₁.trace)
    (honly : (r.before.withInputs inputs).VerifiedOnly w₁ slot) (hspent : (w₁.token slot).Spent) :
    (w₁.token i.slot).Spent := by
  obtain ⟨message, param, hmem⟩ := hp
  have hmem' : .tokenVerified i.slot i.token message param ∈ w₁.verified :=
    List.mem_filter.mpr ⟨htrace ▸ hmem, rfl⟩
  rcases honly _ hmem' with h | ⟨t, m, a, h⟩
  · cases h
  · cases h
    exact hspent

theorem Served.Valid.tokenEffect {r : Served} (hv : r.Valid P) : TokenEffect P r := by
  obtain ⟨w₁, hafter, hd⟩ := hv.run
  have htok : r.after.token = w₁.token := by rw [hafter]
  have htries : r.after.state.remainingTries = w₁.state.remainingTries := by rw [hafter]
  have htrace : r.after.trace = w₁.trace := by rw [hafter]
  have hissued : r.after.issued = w₁.issued := congrArg (List.filter Event.isIssue) htrace
  have hchecks : r.after.pinChecks = w₁.pinChecks := congrArg (List.filterMap Event.pinCheck?) htrace
  have hweak (h : (r.before.withInputs r.after.inputs).AddsNothing w₁) :
      0 < r.after.state.remainingTries → r.before.Weaker r.after := by
    intro hpos slot hu
    rw [htok] at hu ⊢
    exact h.weaker (htries ▸ hpos) slot hu
  rcases hd with ⟨hok, hd⟩ | ⟨e, herr, hd⟩
  · have hadds (hc : commandOf r.cmd ≠ .clientPin) (hr : commandOf r.cmd ≠ .reset)
        (hspent : r.Confirms → ∀ i, r.Presents i → (r.after.token i.slot).Spent) : TokenEffect P r := by
      have h := ((addsNothing_dispatch hc hr).ends (.refl _)).ok hd
      exact .adds (hweak h) (hissued.trans h.issued) (by simp [Served.resets, hr]) (fun hch => hc hch.1) hspent
    obtain ⟨-, hcmd⟩ := dispatch_ok hd
    cases hc : commandOf r.cmd with
    | makeCredential =>
      rw [hc] at hcmd
      obtain ⟨MC, -, hspent, honly, -⟩ := ctapMakeCredential_ok hcmd
      refine hadds (by simp [hc]) (by simp [hc]) fun _ i hp => ?_
      rw [htok]
      exact spent_of_presents hp htrace honly hspent
    | getAssertion =>
      rw [hc] at hcmd
      obtain ⟨A⟩ := ctapGetAssertion_ok hcmd
      refine hadds (by simp [hc]) (by simp [hc]) fun hconf i hp => ?_
      rw [htok]
      obtain ⟨-, hmc | ⟨-, GA, ⟨w₂, hparse⟩, hup⟩⟩ := hconf
      · rw [hc] at hmc
        cases hmc
      · obtain ⟨rfl, -⟩ : A.GA = GA ∧ A.parsed = w₂ := by simpa using A.parse.symm.trans hparse
        exact spent_of_presents hp htrace A.verifiedOnly (A.spent hup)
    | clientPin =>
      rw [hc] at hcmd
      obtain ⟨CP, hparse, heff⟩ := (ctapClientPin_ends _).ok hcmd
      cases heff with
      | other hsub h =>
        refine .adds (hweak h) (hissued.trans h.issued) (by simp [Served.resets, hc]) ?_ ?_
        · rintro ⟨-, -, CP', hparse', hsub'⟩
          rw [hparse] at hparse'
          cases hparse'
          exact hsub hsub'
        · rintro ⟨-, hmc | ⟨hga, -⟩⟩
          · rw [hc] at hmc
            cases hmc
          · rw [hc] at hga
            cases hga
      | changed hsub h => exact .idle fun s => by rw [htok]; exact h s
      | issued hsub i h =>
        exact .issued i ⟨hc, ⟨CP, hparse, hsub⟩, hok, hchecks.trans h.compared, hissued.trans h.event⟩
          (htok ▸ h.holds) (htok ▸ h.others)
    | reset =>
      rw [hc] at hcmd
      have hreset := (ctapReset_ends _).ok hcmd
      exact .idle fun s => by rw [htok, hreset.idle s]
    | _ =>
      refine hadds (by simp [hc]) (by simp [hc]) ?_
      rintro ⟨-, hmc | ⟨hga, -⟩⟩
      · rw [hc] at hmc
        cases hmc
      · rw [hc] at hga
        cases hga
  · have h := dispatch_error_adds hd
    refine .adds (hweak h) (hissued.trans h.issued) (by simp [Served.resets, herr]) ?_ ?_
    · rintro ⟨-, hok, -⟩
      rw [herr] at hok
      cases hok
    · rintro ⟨hok, -⟩
      rw [herr] at hok
      cases hok

end Requests

/-! ## Runs -/

section Runs

variable {P : Platform}

/-- A request behind an issuance that leaves its token alone. -/
def Entry.Harmless (e : Entry) : Prop :=
  ∃ r, e = .request r ∧ r.after.issued = [] ∧ ¬ r.changesPin ∧ r.resets = false

/-- Where the token in a record comes from: the issuance, with nothing but harmless requests since, and
used up once a confirmed operation has presented it. -/
def Traced (P : Platform) (h : List Entry) (slot : Slot) (t : PinUvAuthToken) : Prop :=
  ∃ i h₁ ri h₂, h = h₁ ++ .request ri :: h₂ ∧ i.slot = slot ∧ ri.Issued i ∧ i.Holds P t ∧
    (∀ e ∈ h₁, e.Harmless) ∧ ∀ r, .request r ∈ h₁ → r.Confirms → r.Presents i → t.Spent

theorem Issuance.Holds.within {i : Issuance} {t t' : PinUvAuthToken} (h : i.Holds P t)
    (ht : t'.Within t) : i.Holds P t' where
  token := ht.token.trans h.token
  permissions := fun m hm => h.permissions m (ht.permissions m hm)
  rpId := fun rpId hmem => by
    rw [ht.rpId, ht.rpIdHash]
    exact h.rpId rpId hmem

theorem PinUvAuthToken.Spent.within {t t' : PinUvAuthToken} (h : t.Spent) (ht : t'.Within t) : t'.Spent := by
  intro _ m hm
  by_contra hne
  exact ht.permissions m hne (h ht.inUse m hm)

/-- A request that adds nothing. -/
theorem Traced.request {h : List Entry} {slot : Slot} {r : Served}
    (ht : Traced P h slot (r.before.token slot))
    (hwithin : (r.after.token slot).Within (r.before.token slot)) (hissued : r.after.issued = [])
    (hreset : r.resets = false) (hchange : ¬ r.changesPin)
    (hspent : r.Confirms → ∀ i, r.Presents i → (r.after.token i.slot).Spent) :
    Traced P (.request r :: h) slot (r.after.token slot) := by
  obtain ⟨i, h₁, ri, h₂, rfl, hslot, hri, hholds, hharmless, hused⟩ := ht
  refine ⟨i, .request r :: h₁, ri, h₂, rfl, hslot, hri, hholds.within hwithin, ?_, ?_⟩
  · intro e he
    rcases List.mem_cons.mp he with rfl | he
    · exact ⟨r, rfl, hissued, hchange, hreset⟩
    · exact hharmless e he
  · intro r' hr' hconf hpres
    rcases List.mem_cons.mp hr' with heq | hr'
    · cases heq
      exact hslot ▸ hspent hconf i hpres
    · exact (hused r' hr' hconf hpres).within hwithin

theorem Served.Valid.tries_pos {r : Served} (hv : r.Valid P) (hreset : r.resets = false)
    (hpos : 0 < r.after.state.remainingTries) : 0 < r.before.state.remainingTries := by
  have hacc := hv.account
  rw [if_neg (by simp [hreset])] at hacc
  generalize ha : r.after.account = a at hacc
  cases hacc with
  | quiet =>
    have : r.after.state.remainingTries = r.before.state.remainingTries := congrArg PinAccount.tries ha
    rwa [← this]
  | failed hu => exact hu.1
  | matched hu => exact hu.1

/-- Every token in use of a device that is not locked goes back to an issuance. -/
theorem Run.traced {h : List Entry} {w : World} (hr : Run P h w) (hpos : 0 < w.state.remainingTries)
    (slot : Slot) (hu : (w.token slot).state.inUse = true) : Traced P h slot (w.token slot) := by
  induction hr with
  | start hw hb =>
    obtain ⟨-, -, -, -, hst⟩ := hb.of_new hw
    rw [hst.idle slot] at hu
    cases hu
  | boot hr hb ih =>
    obtain ⟨-, -, -, -, hst⟩ := hb.of_stored hr.synced.file hr.synced.version
    rw [hst.idle slot] at hu
    cases hu
  | request hr r hv hb ih =>
    subst hb
    cases hv.tokenEffect with
    | adds hweak hissued hreset hchange hspent =>
      have hwithin := hweak hpos slot hu
      exact (ih (hv.tries_pos hreset hpos) hwithin.inUse).request hwithin hissued hreset hchange hspent
    | idle hidle =>
      rw [hidle slot] at hu
      cases hu
    | issued i hi holds others =>
      by_cases hs : slot = i.slot
      · subst hs
        exact ⟨i, [], r, _, rfl, rfl, hi, holds, by simp, by simp⟩
      · rw [others slot hs] at hu
        cases hu

/-- Two messages with one hash. -/
def Collision (P : Platform) (a b : List UInt8) : Prop := a ≠ b ∧ P.prims.sha256 a = P.prims.sha256 b

/-- A protected operation demands something of a record that allowed it. -/
theorem Served.Valid.allows {r : Served} (hv : r.Valid P) (hp : r.Protected) :
    0 < r.before.state.remainingTries ∧ ∃ d, r.Demands d ∧
      d.permission ∈ [permissionMc, permissionGa, permissionCm] ∧
      (r.before.token (slotOf d.pinProtocol)).Allows P d := by
  obtain ⟨w₁, hafter, hd⟩ := hv.run
  have htrace : r.after.trace = w₁.trace := by rw [hafter]
  have hok : r.status = .ok := by cases hp <;> assumption
  have hrun : dispatch P (commandOf r.cmd) r.request (r.before.withInputs r.after.inputs)
      = .ok r.response w₁ := by
    rcases hd with ⟨-, hd⟩ | ⟨e, herr, -⟩
    · exact hd
    · rw [hok] at herr
      cases herr
  obtain ⟨hlock, hcmd⟩ := dispatch_ok hrun
  cases hp with
  | makeCredential hc _ hpin =>
    rw [hc] at hlock hcmd
    obtain ⟨MC, hparse, -, -, hallows⟩ := ctapMakeCredential_ok hcmd
    exact ⟨hlock rfl, _, .makeCredential hc hparse, by simp [MakeCredential.demand], hallows hpin⟩
  | @getAssertion hc _ cred' authData' hash hs huv =>
    rw [hc] at hlock hcmd
    obtain ⟨A⟩ := ctapGetAssertion_ok hcmd
    obtain ⟨cred, authData, hass⟩ := A.asserted
    have hmem : .signed cred' authData' hash ∈ w₁.assertionEvents := by
      rw [World.assertionEvents, ← htrace]
      exact List.mem_filter.mpr ⟨hs, rfl⟩
    refine ⟨hlock rfl, _, .getAssertion hc ⟨_, A.parse⟩, by simp [GetAssertion.demand], A.allows hass ?_⟩
    rw [(hass.signed_eq rfl hmem).2]
    exact huv
  | credentialManagement hc _ hsub =>
    rw [hc] at hlock hcmd
    obtain ⟨CM, hparse, hallows⟩ := ctapCredentialManagement_ok hcmd
    exact ⟨hlock rfl, _, .credentialManagement hc hparse, by simp [CredMgmt.demand],
      hallows (hsub CM hparse)⟩

/-- Behind every successful operation that user verification protects there is an earlier successful
issuance, behind a correct PIN: the pinUvAuthParam verified under its token, it granted the permission
and, where it named an RP ID, that of the operation.  Since then, in the same power cycle, there was no
other issuance, no successful changePIN or reset, and no confirmed operation that presented the token. -/
theorem pin_entry_authorises_one_operation {h : List Entry} {w : World} {r : Served}
    (hr : Run P (.request r :: h) w) (hp : r.Protected) :
    ∃ d, r.Demands d ∧ ∃ i h₁ ri h₂, h = h₁ ++ .request ri :: h₂ ∧ ri.Issued i ∧
      i.slot = slotOf d.pinProtocol ∧
      clientPinVerify P.prims i.token d.message d.param d.pinProtocol = true ∧
      i.permissions &&& d.permission ≠ 0 ∧
      (∀ rpId ∈ i.rpId, ∀ rpId' ∈ d.rpId, rpId = rpId' ∨ Collision P rpId rpId') ∧
      ∀ e ∈ h₁, e.Harmless ∧ ∀ r', e = .request r' → r'.Confirms → ¬ r'.Presents i := by
  obtain ⟨hr, hv, -⟩ := hr.of_request
  obtain ⟨hpos, d, hd, hperm, hallows⟩ := hv.allows hp
  obtain ⟨i, h₁, ri, h₂, rfl, hslot, hri, hholds, hharmless, hused⟩ := hr.traced hpos _ hallows.inUse
  refine ⟨d, hd, i, h₁, ri, h₂, rfl, hri, hslot, hholds.token ▸ hallows.verifies,
    hholds.permissions _ hallows.permission, ?_, ?_⟩
  · intro rpId hi rpId' hd'
    obtain ⟨hpresent, hhash⟩ := hholds.rpId rpId hi
    have hsame := hhash.symm.trans (hallows.rpId rpId' hd' hpresent)
    by_cases heq : rpId = rpId'
    · exact .inl heq
    · exact .inr ⟨heq, hsame⟩
  · intro e he
    refine ⟨hharmless e he, ?_⟩
    rintro r' rfl hconf hpres
    exact hallows.not_spent hperm (hused r' he hconf hpres)

/-- A credential is made with a token. -/
theorem pin_entry_authorises_one_operation_new_credential :
    ∃ h w r, Run simPlatform (.request r :: h) w ∧ r.Protected ∧
      ∃ i ri, .request ri ∈ h ∧ ri.Issued i := by
  have heval : ((serveAll simPlatform simStart [touched 6 (setPinRequest "1234"),
      touched 6 (getTokenRequest "1234" 1 "a"),
      touched 1 (encMap (makeCredentialMembers "a" 1 ++ [([8], simAuth simToken (List.replicate 32 7)),
        ([9], [1])]))]).map fun x => x.2.head?.map fun r =>
        (commandOf r.cmd, r.status, clientPinIsSet r.before))
      = some (some (.makeCredential, .ok, true)) := by
    decide +kernel
  obtain ⟨⟨w, rs⟩, hrs, hhead⟩ := Option.map_eq_some_iff.mp heval
  obtain ⟨r, hr, hprops⟩ := Option.map_eq_some_iff.mp hhead
  obtain ⟨rs', rfl⟩ := List.head?_eq_some_iff.mp hr
  simp only [Prod.mk.injEq] at hprops
  have hp : r.Protected := .makeCredential hprops.1 hprops.2.1 hprops.2.2
  have hrun := serveAll_run run_simStart hrs
  obtain ⟨d, -, i, h₁, ri, h₂, hh, hri, -⟩ := pin_entry_authorises_one_operation hrun hp
  exact ⟨_, w, r, hrun, hp, i, ri, by rw [hh]; simp, hri⟩

end Runs

end TkeyFido2
