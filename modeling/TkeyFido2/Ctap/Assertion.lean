import Mathlib.Tactic.IntervalCases
import TkeyFido2.Ctap.Simulator

/-!
# Successful assertions

The stages of a successful authenticatorGetAssertion and authenticatorGetNextAssertion, and what they
leave in `getAssertionState`.
-/

namespace TkeyFido2

open Cbor Prog

variable {P : Platform} {w w' : World}

/-! ## Stages -/

/-- A request with an empty pinUvAuthParam does not succeed. -/
theorem onlyIf_selectByTouch_ok {c : Prop} [Decidable c] (h : onlyIf c selectByTouch w = .ok () w') :
    ¬ c ∧ w' = w := by
  rcases onlyIf_eq_ok.mp h with ⟨-, h⟩ | h
  · unfold selectByTouch at h
    obtain ⟨_, w₁, -, h⟩ := bind_eq_ok.mp h
    rw [get_bind] at h
    exact absurd h (by simp)
  · exact h

/-- The stages of a successful `ctap_get_assertion` with the state behind each of them. -/
structure AssertionRun (P : Platform) (request : List UInt8) (w w' : World) where
  GA : GetAssertion
  (parsed verified listed named made extended signed : World)
  parse : parseGetAssertionRequest request w = .ok GA parsed
  complete : GA.rp.size ≠ 0 ∧ GA.clientDataHashPresent = true
  verify : verifyGetAssertionAuth P GA (P.prims.sha256 GA.rp.bytes) parsed = .ok () verified
  /-- `validCredCount`. -/
  count : Nat
  list : buildFilteredCredentialList P GA (P.prims.sha256 GA.rp.bytes)
    (rpIdLookupOf P.prims parsed.keys (P.prims.sha256 GA.rp.bytes)) verified = .ok count listed
  count_ne_zero : count ≠ 0
  name : onlyIf (count < 2 ∨ listed.ga.userVerified = 0) (hideName 0) listed = .ok () named
  make : makeAssertionAuthData P GA (P.prims.sha256 GA.rp.bytes)
    (rpIdLookupOf P.prims parsed.keys (P.prims.sha256 GA.rp.bytes)) named = .ok () made
  /-- The size of the extension output. -/
  size : Nat
  extend : assertionExtensions P GA.extensions made = .ok size extended
  (map map' : Encoder)
  sign : encodeAssertionResponse P map (extended.ga.creds.nth 0) (extended.ga.authDataBytes size)
    GA.clientDataHash extended = .ok map' signed
  save : saveCredentialList GA.clientDataHash (count - 1) GA.extensions signed = .ok () w'

theorem encode_ok {α : Type} {x : EncM α} {a : α} (h : encode x w = .ok a w') : w' = w :=
  (ctapCheck_eq_ok.mp h).2

theorem ctapGetAssertion_ok {request out : List UInt8} (h : ctapGetAssertion P request w = .ok out w') :
    Nonempty (AssertionRun P request w w') := by
  unfold ctapGetAssertion at h
  obtain ⟨GA, parsed, hparse, h⟩ := bind_eq_ok.mp h
  obtain ⟨⟨⟩, w₁, hsel, h⟩ := bind_eq_ok.mp h
  rw [(onlyIf_selectByTouch_ok hsel).2] at h
  obtain ⟨hmissing, h⟩ := failIf_bind_eq_ok.mp h
  rw [get_bind] at h
  obtain ⟨⟨⟩, verified, hverify, h⟩ := bind_eq_ok.mp h
  obtain ⟨count, listed, hlist, h⟩ := bind_eq_ok.mp h
  obtain ⟨hcount, h⟩ := failIf_bind_eq_ok.mp h
  rw [get_bind] at h
  obtain ⟨map, w₂, henc, h⟩ := bind_eq_ok.mp h
  rw [encode_ok henc, get_bind] at h
  obtain ⟨⟨⟩, named, hname, h⟩ := bind_eq_ok.mp h
  obtain ⟨⟨⟩, made, hmake, h⟩ := bind_eq_ok.mp h
  obtain ⟨size, extended, hext, h⟩ := bind_eq_ok.mp h
  rw [get_bind] at h
  obtain ⟨map', signed, hsign, h⟩ := bind_eq_ok.mp h
  obtain ⟨map'', w₃, hcnt, h⟩ := bind_eq_ok.mp h
  have hcnt' : w₃ = signed := by
    unfold encodeCount at hcnt
    rcases ite_eq_ok.mp hcnt with ⟨-, hcnt⟩ | ⟨-, hcnt⟩
    · obtain ⟨_, w₄, he, he'⟩ := bind_eq_ok.mp hcnt
      exact (encode_ok he').trans (encode_ok he)
    · exact (pure_eq_ok.mp hcnt).2
  obtain ⟨enc, w₄, henc, h⟩ := bind_eq_ok.mp h
  rw [encode_ok henc, hcnt'] at h
  obtain ⟨⟨⟩, w₅, hsave, h⟩ := bind_eq_ok.mp h
  rw [← (pure_eq_ok.mp h).2] at hsave
  exact ⟨⟨GA, parsed, verified, listed, named, made, extended, signed, hparse, by simpa using hmissing,
    hverify, count, hlist, hcount, hname, hmake, size, hext, map, map', hsign, hsave⟩⟩

/-! ## User presence and authenticator data -/

/-- The user was asked. -/
def World.asked (w : World) : World := { w with
  presencePos := w.presencePos + 1
  trace := w.trace ++ [.presenceTested (w.inputs.presence w.presencePos)] }

theorem ctap2UserPresenceTest_disabled (h : w.upDisabled = true) :
    ctap2UserPresenceTest w = .ok (.error .userPresenceDisabled) w := by
  have ht : ctapUserPresenceTest w = .ok .disabled w := by
    unfold ctapUserPresenceTest
    rw [get_bind, if_pos h]
    rfl
  unfold ctap2UserPresenceTest
  rw [bind_of_ok ht]
  rfl

theorem ctap2UserPresenceTest_asked (h : w.upDisabled = false) :
    ctap2UserPresenceTest w
      = .ok (if w.inputs.presence w.presencePos then .ok else .error .operationDenied) w.asked := by
  have ht : ctapUserPresenceTest w
      = .ok (if w.inputs.presence w.presencePos then .present else .absent) w.asked := by
    unfold ctapUserPresenceTest
    rw [get_bind, if_neg (by simp [h])]
    rfl
  unfold ctap2UserPresenceTest
  rw [bind_of_ok ht]
  cases w.inputs.presence w.presencePos <;> rfl

theorem asked_assertionEvents :
    w.asked.assertionEvents = w.assertionEvents ++ [.presenceTested (w.inputs.presence w.presencePos)] := by
  simp [World.asked, World.assertionEvents, Event.isAssertion]

/-- A user presence test that lets the request go on: switched off, or with the user present. -/
theorem ctap2UserPresenceTest_passed {r : CtapStatus} (h : ctap2UserPresenceTest w = .ok r w')
    (hr : r ≠ .error .userPresenceDisabled → r = .ok) :
    (w.upDisabled = true ∧ r = .error .userPresenceDisabled ∧ w'.assertionEvents = w.assertionEvents) ∨
    (w.upDisabled = false ∧ r = .ok ∧
      w'.assertionEvents = w.assertionEvents ++ [.presenceTested true]) := by
  cases hup : w.upDisabled with
  | true =>
    rw [ctap2UserPresenceTest_disabled hup] at h
    cases h
    exact .inl ⟨rfl, rfl, rfl⟩
  | false =>
    rw [ctap2UserPresenceTest_asked hup] at h
    cases hp : w.inputs.presence w.presencePos with
    | true =>
      rw [hp] at h
      cases h
      exact .inr ⟨rfl, rfl, by rw [asked_assertionEvents, hp]⟩
    | false =>
      rw [hp] at h
      cases h
      exact absurd (hr (by decide)) (by decide)

theorem headerFlags_disabled (pinIsSet : Bool) :
    headerFlags (.error .userPresenceDisabled) pinIsSet &&& 1 = 0 := by
  cases pinIsSet <;> decide

theorem headerFlags_present (pinIsSet : Bool) : headerFlags .ok pinIsSet &&& 1 = 1 := by
  cases pinIsSet <;> decide

/-- The header that `ctap_make_auth_data` leaves in `getAssertionState`. -/
theorem makeAuthDataHeader_ok {hash : Bytes 32} {r : AuthDataHeader × UInt32}
    (h : makeAuthDataHeader .assertion hash w = .ok r w') :
    w'.ga = { w.ga with authData := r.1 } ∧ r.1.rpIdHash = hash ∧
    ((w.upDisabled = true ∧ r.1.flags &&& 1 = 0 ∧ w'.assertionEvents = w.assertionEvents) ∨
      (w.upDisabled = false ∧ r.1.flags &&& 1 = 1 ∧
        w'.assertionEvents = w.assertionEvents ++ [.presenceTested true])) := by
  unfold makeAuthDataHeader at h
  rw [get_bind, bind_eq_ok] at h
  obtain ⟨⟨⟩, w₁, hput₁, h⟩ := h
  rw [bind_eq_ok] at h
  obtain ⟨count, w₂, hcount, h⟩ := h
  rw [bind_eq_ok] at h
  obtain ⟨⟨⟩, w₃, hput₂, h⟩ := h
  rw [bind_eq_ok] at h
  obtain ⟨up, w₄, hup, h⟩ := h
  rw [bind_eq_ok] at h
  obtain ⟨⟨⟩, w₅, hcheck, h⟩ := h
  rw [get_bind, bind_eq_ok] at h
  obtain ⟨⟨⟩, w₆, hput₃, h⟩ := h
  obtain ⟨rfl, rfl⟩ := pure_eq_ok.mp h
  have hpass : w₅ = w₄ ∧ (up ≠ .error .userPresenceDisabled → up = .ok) := by
    rcases onlyIf_eq_ok.mp hcheck with ⟨-, hc⟩ | ⟨hdis, hc⟩
    · obtain ⟨hok, hw⟩ := checkStatus_eq_ok.mp hc
      exact ⟨hw, fun _ => hok⟩
    · exact ⟨hc, fun hne => absurd hne hdis⟩
  -- the buffer is written three times, with the counter and the test in between
  have hga₁ : w₁.ga = _ := congrArg World.ga (modify_eq_ok.mp hput₁)
  have hga₂ : w₂.ga = w₁.ga := (touches_ctapAuthDataUpdateCount .ga (by decide)).ok hcount
  have hga₃ : w₃.ga = _ := congrArg World.ga (modify_eq_ok.mp hput₂)
  have hga₄ : w₄.ga = w₃.ga := (touches_ctap2UserPresenceTest .ga (by decide)).ok hup
  have hga₆ : w'.ga = _ := congrArg World.ga (modify_eq_ok.mp hput₃)
  have hput (head : AuthDataHeader) : Touches AuthBuf.assertion.parts (putHead .assertion head) :=
    touches_putHead
  have hup₃ : w₃.upDisabled = w.upDisabled := by
    calc w₃.upDisabled = w₂.upDisabled := (hput _ .upDisabled (by decide)).ok hput₂
      _ = w₁.upDisabled := (touches_ctapAuthDataUpdateCount .upDisabled (by decide)).ok hcount
      _ = w.upDisabled := (hput _ .upDisabled (by decide)).ok hput₁
  have hev₃ : w₃.assertionEvents = w.assertionEvents := by
    calc w₃.assertionEvents = w₂.assertionEvents := (hput _ .assertionEvents (by decide)).ok hput₂
      _ = w₁.assertionEvents := (touches_ctapAuthDataUpdateCount .assertionEvents (by decide)).ok hcount
      _ = w.assertionEvents := (hput _ .assertionEvents (by decide)).ok hput₁
  have hev : w'.assertionEvents = w₄.assertionEvents := by
    rw [← hpass.1]
    exact (hput _ .assertionEvents (by decide)).ok hput₃
  refine ⟨?_, rfl, ?_⟩
  · rw [hga₆, hpass.1, hga₄, hga₃, hga₂, hga₁]
  · rcases ctap2UserPresenceTest_passed hup hpass.2 with ⟨hdis, rfl, hev₄⟩ | ⟨hdis, rfl, hev₄⟩
    · exact .inl ⟨hup₃ ▸ hdis, headerFlags_disabled _, hev.trans (hev₄.trans hev₃)⟩
    · exact .inr ⟨hup₃ ▸ hdis, headerFlags_present _, by rw [hev, hev₄, hev₃]⟩

/-- The flags of the authenticator data of an assertion: user presence as tested, user verification
as recorded in the state. -/
structure FlagsOf (GA : GetAssertion) (userVerified flags : UInt8) : Prop where
  up : flags &&& 1 = if GA.options.up = .no then 0 else 1
  uv : flags &&& (4 : UInt8) = (userVerified <<< 2) &&& (4 : UInt8)

theorem assertionFlags_up (flags uv : UInt8) :
    ((flags &&& ~~~(4 : UInt8)) ||| (uv <<< 2)) &&& 1 = flags &&& 1 := by
  rw [← UInt8.toBitVec_inj]
  simp only [UInt8.toBitVec_and, UInt8.toBitVec_or, UInt8.toBitVec_not, UInt8.toBitVec_shiftLeft]
  ext i hi
  interval_cases i <;> simp

theorem assertionFlags_uv (flags uv : UInt8) :
    ((flags &&& ~~~(4 : UInt8)) ||| (uv <<< 2)) &&& (4 : UInt8) = (uv <<< 2) &&& (4 : UInt8) := by
  rw [← UInt8.toBitVec_inj]
  simp only [UInt8.toBitVec_and, UInt8.toBitVec_or, UInt8.toBitVec_not, UInt8.toBitVec_shiftLeft]
  ext i hi
  interval_cases i <;> simp

/-- The presence test that a request asks for. -/
def GetAssertion.presenceEvents (GA : GetAssertion) : List Event :=
  if GA.options.up = .no then [] else [.presenceTested true]

theorem makeAssertionAuthData_ok {GA : GetAssertion} {hash : Bytes 32} {l : Bytes 16}
    (h : makeAssertionAuthData P GA hash l w = .ok () w') :
    ∃ head : AuthDataHeader, w'.ga = { w.ga with authData := head } ∧ head.rpIdHash = hash ∧
      FlagsOf GA w.ga.userVerified head.flags ∧
      w'.assertionEvents = w.assertionEvents ++ GA.presenceEvents ∧
      (GA.options.up ≠ .no → ∃ w₁ w₂, clearPinFlags (slotOf GA.pinProtocol) w₁ = .ok () w₂ ∧
        w'.token = w₂.token) := by
  unfold makeAssertionAuthData at h
  rw [bind_eq_ok] at h
  obtain ⟨⟨⟩, w₁, hdis, h⟩ := h
  rw [bind_eq_ok] at h
  obtain ⟨⟨⟩, w₂, hmake, h⟩ := h
  rw [bind_eq_ok] at h
  obtain ⟨⟨⟩, w₃, hen, h⟩ := h
  rw [bind_eq_ok] at h
  obtain ⟨⟨⟩, w₄, hclear, h⟩ := h
  rw [get_bind] at h
  have hw₁ : w₁ = { w with upDisabled := decide (GA.options.up = .no) } := modify_eq_ok.mp hdis
  have hhead : ∃ r, makeAuthDataHeader .assertion hash w₁ = .ok r w₂ := by
    rcases tryCatch_eq_ok.mp hmake with hm | ⟨e, w₅, -, hm⟩
    · obtain ⟨⟨head, rest⟩, hm, -⟩ := map_eq_ok.mp hm
      unfold ctapMakeAuthData at hm
      rw [bind_eq_ok] at hm
      obtain ⟨⟨head, n⟩, w₅, hm, hm'⟩ := hm
      obtain ⟨-, rfl⟩ := pure_eq_ok.mp hm'
      exact ⟨_, hm⟩
    · rw [bind_eq_ok] at hm
      obtain ⟨_, w₆, -, hm⟩ := hm
      exact absurd hm (by simp)
  obtain ⟨⟨head, n⟩, hhead⟩ := hhead
  obtain ⟨hga, hhash, hup⟩ := makeAuthDataHeader_ok hhead
  have hclear' : Touches [.token] (onlyIf (GA.options.up ≠ .no) (clearPinFlags (slotOf GA.pinProtocol))) :=
    touches_onlyIf touches_clearPinFlags
  have hga₄ : w₄.ga = { w.ga with authData := head } := by
    calc w₄.ga = w₃.ga := (hclear' .ga (by decide)).ok hclear
      _ = w₂.ga := (touches_deviceDisableUp .ga (by decide)).ok hen
      _ = { w₁.ga with authData := head } := hga
      _ = { w.ga with authData := head } := by rw [hw₁]
  have hev₄ : w₄.assertionEvents = w₂.assertionEvents := by
    calc w₄.assertionEvents = w₃.assertionEvents := (hclear' .assertionEvents (by decide)).ok hclear
      _ = w₂.assertionEvents := (touches_deviceDisableUp .assertionEvents (by decide)).ok hen
  rw [hw₁] at hup
  obtain rfl := modify_eq_ok.mp h
  refine ⟨{ head with flags := (head.flags &&& ~~~(4 : UInt8)) ||| (w.ga.userVerified <<< 2) }, ?_, hhash,
    ⟨?_, assertionFlags_uv _ _⟩, ?_, ?_⟩
  · show ({ w₄.ga with authData := _ } : GetAssertionState) = _
    rw [hga₄]
  · rw [assertionFlags_up]
    rcases hup with ⟨hno, hf, -⟩ | ⟨hyes, hf, -⟩
    · rw [hf, if_pos (of_decide_eq_true hno)]
    · rw [hf, if_neg (of_decide_eq_false hyes)]
  · show w₄.assertionEvents = _
    rw [hev₄]
    unfold GetAssertion.presenceEvents
    rcases hup with ⟨hno, -, hev⟩ | ⟨hyes, -, hev⟩
    · rw [if_pos (of_decide_eq_true hno), List.append_nil]
      exact hev
    · rw [if_neg (of_decide_eq_false hyes)]
      exact hev
  · intro hne
    rcases onlyIf_eq_ok.mp hclear with ⟨-, hc⟩ | ⟨hno, -⟩
    · exact ⟨w₃, w₄, hc, rfl⟩
    · exact absurd hne hno

/-! ## Extensions, signature and saved list -/

/-- The bits for user presence and user verification. -/
def upUv (flags : UInt8) : UInt8 × UInt8 := (flags &&& 1, flags &&& 4)

theorem upUv_set_extension (flags : UInt8) : upUv (flags ||| 0x80) = upUv flags := by
  have hbit (m : UInt8) (hm : (0x80 : UInt8) &&& m = 0) : (flags ||| 0x80) &&& m = flags &&& m := by
    rw [← UInt8.toBitVec_inj] at hm ⊢
    simp only [UInt8.toBitVec_and, UInt8.toBitVec_or] at hm ⊢
    ext i hi
    have := congrArg (·[i]) hm
    simp only [BitVec.getElem_and, BitVec.getElem_or] at this ⊢
    cases flags.toBitVec[i] <;> simp_all
  unfold upUv
  rw [hbit 1 rfl, hbit 4 rfl]

theorem upUv_clear_extension (flags : UInt8) : upUv (flags &&& ~~~(0x80 : UInt8)) = upUv flags := by
  unfold upUv
  rw [UInt8.and_assoc, UInt8.and_assoc]
  rfl

/-- Two states of an assertion that differ in the extension output only. -/
structure GetAssertionState.SameButExtensions (s' s : GetAssertionState) : Prop where
  rest : ∃ extBuf flags, s' = { s with extBuf := extBuf, authData := { s.authData with flags := flags } }
  flags : upUv s'.authData.flags = upUv s.authData.flags

theorem assertionExtensions_ok {ext : Extensions} {size : Nat}
    (h : assertionExtensions P ext w = .ok size w') : w'.ga.SameButExtensions w.ga := by
  unfold assertionExtensions at h
  rw [get_bind, bind_eq_ok] at h
  obtain ⟨out, w₁, hout, h⟩ := h
  have hga : w₁.ga = w.ga := (touches_ctapExtensionsEncodeOutput .ga (by decide)).ok hout
  rw [bind_eq_ok] at h
  obtain ⟨⟨⟩, w₂, hput, h⟩ := h
  have hga₂ : w₂.ga = { w.ga with extBuf := w.ga.extBuf.patch 0 out } := by
    rw [modify_eq_ok.mp hput, hga]
  rw [bind_eq_ok] at h
  obtain ⟨⟨⟩, w₃, hflags, h⟩ := h
  obtain ⟨-, rfl⟩ := pure_eq_ok.mp h
  rcases onlyIf_eq_ok.mp hflags with ⟨-, hf⟩ | ⟨-, hf⟩
  · have hga₃ : w'.ga = { w₂.ga with authData := { w₂.ga.authData with
        flags := w₂.ga.authData.flags ||| 0x80 } } := congrArg World.ga (modify_eq_ok.mp hf)
    rw [hga₃, hga₂]
    exact ⟨⟨_, _, rfl⟩, upUv_set_extension _⟩
  · rw [hf, hga₂]
    exact ⟨⟨_, _, rfl⟩, rfl⟩

/-- The stages of `ctap_get_assertion_cbor_encode_assertion_response`: the signature, and encoding around it. -/
theorem encodeAssertionResponse_stages {map map' : Encoder} {cred : CredentialDescriptor}
    {authData : List UInt8} {hash : Bytes 32}
    (h : encodeAssertionResponse P map cred authData hash w = .ok map' w') :
    ∃ sig w₁ w₂, ctapSignData P (cryptoDeriveCredentialKey P.prims w.keys cred.idBytes) authData hash
        (ctapRestoreMetadataCoseAlg P.prims w.keys cred.id) w = .ok sig w₁ ∧
      emit (.signed cred authData hash) w₁ = .ok () w₂ ∧ ∀ p : Part, p.view w' = p.view w₂ := by
  unfold encodeAssertionResponse at h
  rw [bind_eq_ok] at h
  obtain ⟨map₁, w₁, h₁, h⟩ := h
  rw [bind_eq_ok] at h
  obtain ⟨map₂, w₂, h₂, h⟩ := h
  rw [bind_eq_ok] at h
  obtain ⟨map₃, w₃, h₃, h⟩ := h
  rw [bind_eq_ok] at h
  obtain ⟨map₄, w₄, h₄, h⟩ := h
  have hw₄ : w₄ = w := (encode_ok h₄).trans ((encode_ok h₃).trans ((encode_ok h₂).trans (encode_ok h₁)))
  rw [hw₄, get_bind, bind_eq_ok] at h
  obtain ⟨sig, w₅, hsig, h⟩ := h
  rw [bind_eq_ok] at h
  obtain ⟨⟨⟩, w₆, hemit, h⟩ := h
  refine ⟨sig, w₅, w₆, hsig, hemit, fun p => ?_⟩
  exact ((touches_encode.bind fun _ => touches_encode.bind fun _ => frames_ite
    (touches_encode.bind fun _ => frames_get.bind fun _ => touches_encode) frames_pure :
    Touches [] _) p List.not_mem_nil).ok h

theorem encodeAssertionResponse_ok {map map' : Encoder} {cred : CredentialDescriptor}
    {authData : List UInt8} {hash : Bytes 32}
    (h : encodeAssertionResponse P map cred authData hash w = .ok map' w') :
    w'.ga = w.ga ∧ w'.assertionEvents = w.assertionEvents ++ [.signed cred authData hash] := by
  refine ⟨(touches_encodeAssertionResponse .ga (by decide)).ok h, ?_⟩
  obtain ⟨sig, w₁, w₂, hsig, hemit, hrest⟩ := encodeAssertionResponse_stages h
  have hsame : w₁.assertionEvents = w.assertionEvents :=
    (touches_ctapSignData .assertionEvents (by decide)).ok hsig
  have hlast : w'.assertionEvents = w₂.assertionEvents := hrest .assertionEvents
  rw [hlast, emit_eq_ok.mp hemit, ← hsame]
  simp [World.assertionEvents, Event.isAssertion]

theorem nth_moveDown {creds : Creds} {n i : Nat} (hn : n ≤ 20) (hi : i < n) :
    (creds.moveDown n).nth i = creds.nth (i + 1) := by
  have hlen : i < 20 := by omega
  unfold Creds.nth Creds.moveDown
  simp [List.Vector.toList, List.getD_eq_getElem?_getD, hlen, hi, Creds.nth]

/-- `save_credential_list` where it saves. -/
theorem saveCredentialList_ok {hash : Bytes 32} {n : Nat} {ext : Extensions}
    (h : saveCredentialList hash n ext w = .ok () w') :
    n ≤ 19 ∧ w'.ga.count = UInt32.ofNat n ∧ w'.ga.index = 0 ∧
      (∀ i < n, w'.ga.creds.nth i = w.ga.creds.nth (i + 1)) ∧ (n ≠ 0 → w'.ga.clientDataHash = hash) ∧
      w'.ga.authData = w.ga.authData ∧ w'.ga.userVerified = w.ga.userVerified := by
  unfold saveCredentialList at h
  obtain ⟨hle, h⟩ := failIf_bind_eq_ok.mp h
  have hn : n ≤ 19 := by
    have : allowListMaxSize - 1 = 19 := rfl
    omega
  rw [bind_eq_ok] at h
  obtain ⟨⟨⟩, w₁, hsave, h⟩ := h
  obtain rfl := modify_eq_ok.mp h
  refine ⟨hn, rfl, rfl, ?_⟩
  rcases onlyIf_eq_ok.mp hsave with ⟨-, hs⟩ | ⟨hz, hs⟩
  · obtain rfl := modify_eq_ok.mp hs
    exact ⟨fun i hi => nth_moveDown (by omega) hi, fun _ => rfl, rfl, rfl⟩
  · obtain rfl := hs
    have hz' : n = 0 := not_not.mp hz
    exact ⟨fun i hi => by omega, fun hne => absurd hz' hne, rfl, rfl⟩

theorem nth_put_self (creds : Creds) (i : Nat) (c : CredentialDescriptor) :
    (creds.put i c).nth i = c ∨ (creds.put i c).nth i = creds.nth i := by
  unfold Creds.nth Creds.put
  simp only [List.Vector.toList]
  by_cases hi : i < creds.1.length
  · left
    rw [List.getD_eq_getElem?_getD, List.getElem?_set_self hi, Option.getD_some]
  · right
    rw [List.set_eq_of_length_le (by omega)]

theorem nth_put_of_ne {creds : Creds} {i j : Nat} {c : CredentialDescriptor} (h : j ≠ i) :
    (creds.put i c).nth j = creds.nth j := by
  unfold Creds.nth Creds.put
  simp only [List.Vector.toList, List.getD_eq_getElem?_getD]
  rw [List.getElem?_set_ne h.symm]

/-- A descriptor as it is handed out: with or without the name of the user. -/
def CredentialDescriptor.Shows (cred saved : CredentialDescriptor) : Prop :=
  cred = saved ∨ cred = saved.withoutName

theorem CredentialDescriptor.Shows.id_eq {cred saved : CredentialDescriptor} (h : cred.Shows saved) :
    cred.id = saved.id := by
  rcases h with rfl | rfl
  · rfl
  · rfl

theorem hideName_ok {c : Prop} [Decidable c] {i : Nat} (h : onlyIf c (hideName i) w = .ok () w') :
    (∃ creds, w'.ga = { w.ga with creds := creds }) ∧
      (w'.ga.creds.nth i).Shows (w.ga.creds.nth i) ∧
      (∀ j ≠ i, w'.ga.creds.nth j = w.ga.creds.nth j) ∧ w'.assertionEvents = w.assertionEvents := by
  rcases onlyIf_eq_ok.mp h with ⟨-, h⟩ | ⟨-, rfl⟩
  · unfold hideName at h
    rw [get_bind] at h
    obtain rfl := modify_eq_ok.mp h
    refine ⟨⟨_, rfl⟩, ?_, fun j hj => nth_put_of_ne hj, rfl⟩
    rcases nth_put_self w.ga.creds i (w.ga.creds.nth i).withoutName with h | h
    · exact .inr h
    · exact .inl h
  · exact ⟨⟨_, rfl⟩, .inl rfl, fun _ _ => rfl, rfl⟩

/-- `ctap_extensions_encode_output` in `ctap_get_next_assertion`, whether it fails or not. -/
theorem nextExtensions_ok {size : Nat} (h : nextExtensions P w = .ok size w') :
    w'.ga.SameButExtensions w.ga ∧ w'.assertionEvents = w.assertionEvents := by
  refine ⟨?_, (touches_nextExtensions .assertionEvents (by decide)).ok h⟩
  unfold nextExtensions at h
  rw [get_bind] at h
  rcases tryCatch_eq_ok.mp h with h | ⟨e, w₁, herr, h⟩
  · rw [bind_eq_ok] at h
    obtain ⟨out, w₁, hout, h⟩ := h
    have hga : w₁.ga = w.ga := (touches_ctapExtensionsEncodeOutput .ga (by decide)).ok hout
    rw [bind_eq_ok] at h
    obtain ⟨⟨⟩, w₂, hput, h⟩ := h
    have hga₂ : w₂.ga = { w.ga with extBuf := w.ga.extBuf.patch 0 out } := by
      rw [modify_eq_ok.mp hput, hga]
    rw [bind_eq_ok] at h
    obtain ⟨⟨⟩, w₃, hflags, h⟩ := h
    obtain ⟨-, rfl⟩ := pure_eq_ok.mp h
    have hga₃ : w'.ga = { w₂.ga with authData := { w₂.ga.authData with flags :=
        if out.length ≠ 0 then w₂.ga.authData.flags ||| 0x80
        else w₂.ga.authData.flags &&& ~~~(0x80 : UInt8) } } := congrArg World.ga (modify_eq_ok.mp hflags)
    rw [hga₃, hga₂]
    refine ⟨⟨_, _, rfl⟩, ?_⟩
    dsimp only
    by_cases hz : out.length ≠ 0
    · rw [if_pos hz, upUv_set_extension]
    · rw [if_neg hz, upUv_clear_extension]
  · -- the error is dropped; the state is the one that the attempt left
    have hga : w₁.ga.SameButExtensions w.ga := by
      rcases bind_eq_error.mp herr with herr | ⟨out, w₂, -, herr⟩
      · rw [show w₁.ga = w.ga from (touches_ctapExtensionsEncodeOutput .ga (by decide)).error herr]
        exact ⟨⟨_, _, rfl⟩, rfl⟩
      · exact absurd herr (by
          rintro ⟨⟩)
    cases e with
    | status e =>
      obtain ⟨-, rfl⟩ := pure_eq_ok.mp h
      exact hga
    | halt e => exact absurd h (by simp)

/-! ## What is signed -/

/-- The RP ID hash and the flags in authenticator data. -/
def authDataRpIdHash (authData : List UInt8) : List UInt8 := authData.take 32
def authDataFlags (authData : List UInt8) : UInt8 := authData.getD 32 0

theorem authDataRpIdHash_bytes (s : GetAssertionState) (size : Nat) :
    authDataRpIdHash (s.authDataBytes size) = s.authData.rpIdHash.toList := by
  unfold authDataRpIdHash GetAssertionState.authDataBytes AuthDataHeader.bytes
  rw [List.append_assoc, List.append_assoc, List.take_left' (by simp)]

theorem authDataFlags_bytes (s : GetAssertionState) (size : Nat) :
    authDataFlags (s.authDataBytes size) = s.authData.flags := by
  unfold authDataFlags GetAssertionState.authDataBytes AuthDataHeader.bytes
  rw [List.append_assoc, List.append_assoc, List.getD_eq_getElem?_getD,
    List.getElem?_append_right (by simp)]
  simp

/-- A successful authenticatorGetNextAssertion: the next of the saved credentials is used with the
data of the state, and only the position, the counter, the name and the extensions change. -/
structure NextAsserted (w w' : World) (cred : CredentialDescriptor) (authData : List UInt8) : Prop where
  left : w.ga.index < w.ga.count
  events : w'.assertionEvents = w.assertionEvents ++ [.signed cred authData w.ga.clientDataHash]
  shows : cred.Shows (w.ga.creds.nth w.ga.index.toNat)
  rpIdHash : authDataRpIdHash authData = w.ga.authData.rpIdHash.toList
  flags : upUv (authDataFlags authData) = upUv w.ga.authData.flags
  index : w'.ga.index = w.ga.index + 1
  count : w'.ga.count = w.ga.count
  hash : w'.ga.clientDataHash = w.ga.clientDataHash
  saved : ∀ i ≠ w.ga.index.toNat, w'.ga.creds.nth i = w.ga.creds.nth i
  rpIdHash_kept : w'.ga.authData.rpIdHash = w.ga.authData.rpIdHash
  flags_kept : upUv w'.ga.authData.flags = upUv w.ga.authData.flags

/-- The stages of a successful `ctap_get_next_assertion` with the state behind each of them. -/
structure NextRun (P : Platform) (w w' : World) where
  (counted named extended : World)
  left : w.ga.index < w.ga.count
  /-- The new signature counter. -/
  count : UInt32
  update : ctapAuthDataUpdateCount { w with ga := { w.ga with index := w.ga.index + 1 } } = .ok count counted
  name : onlyIf (counted.ga.userVerified = 0) (hideName w.ga.index.toNat) { counted with
    ga := { counted.ga with authData := { counted.ga.authData with signCount := count } } } = .ok () named
  /-- The size of the extension output. -/
  size : Nat
  extend : nextExtensions P named = .ok size extended
  (map map' : Encoder)
  sign : encodeAssertionResponse P map (extended.ga.creds.nth w.ga.index.toNat) (extended.ga.authDataBytes size)
    extended.ga.clientDataHash extended = .ok map' w'

theorem ctapGetNextAssertion_ok {out : List UInt8} (h : ctapGetNextAssertion P w = .ok out w') :
    Nonempty (NextRun P w w') := by
  unfold ctapGetNextAssertion at h
  rw [bind_eq_ok] at h
  obtain ⟨pos, w₁, hpos, h⟩ := h
  unfold getNextCredential at hpos
  rw [get_bind] at hpos
  rcases ite_eq_ok.mp hpos with ⟨⟨-, hleft⟩, hpos⟩ | ⟨-, hpos⟩
  · obtain ⟨⟨⟩, w₀, hmod, hpos⟩ := bind_eq_ok.mp hpos
    obtain ⟨rfl, rfl⟩ := pure_eq_ok.mp hpos
    obtain rfl := modify_eq_ok.mp hmod
    obtain ⟨n, counted, hcount, h⟩ := bind_eq_ok.mp h
    obtain ⟨⟨⟩, w₃, hset, h⟩ := bind_eq_ok.mp h
    obtain rfl := modify_eq_ok.mp hset
    rw [get_bind] at h
    obtain ⟨map, w₄, henc, h⟩ := bind_eq_ok.mp h
    rw [encode_ok henc] at h
    obtain ⟨⟨⟩, named, hname, h⟩ := bind_eq_ok.mp h
    obtain ⟨size, extended, hext, h⟩ := bind_eq_ok.mp h
    rw [get_bind] at h
    obtain ⟨map', signed, hsign, h⟩ := bind_eq_ok.mp h
    obtain ⟨enc, w₈, henc, h⟩ := bind_eq_ok.mp h
    obtain ⟨-, rfl⟩ := pure_eq_ok.mp h
    rw [← encode_ok henc] at hsign
    exact ⟨⟨counted, named, extended, hleft, n, hcount, hname, size, hext, map, map', hsign⟩⟩
  · obtain ⟨rfl, rfl⟩ := pure_eq_ok.mp hpos
    exact (failWith_ne_ok.mp h).elim

theorem NextRun.nextAsserted (N : NextRun P w w') : ∃ cred authData, NextAsserted w w' cred authData := by
  have hev₂ : N.counted.assertionEvents
      = World.assertionEvents { w with ga := { w.ga with index := w.ga.index + 1 } } :=
    (touches_ctapAuthDataUpdateCount .assertionEvents (by decide)).ok N.update
  have hga₂ : N.counted.ga = { w.ga with index := w.ga.index + 1 } :=
    (touches_ctapAuthDataUpdateCount .ga (by decide)).ok N.update
  obtain ⟨⟨creds, hga₅⟩, hshow, hother, hev₅⟩ := hideName_ok N.name
  obtain ⟨⟨⟨buf, flags, hga₆⟩, hflags₆⟩, hev₆⟩ := nextExtensions_ok N.extend
  obtain ⟨hga₇, hev₇⟩ := encodeAssertionResponse_ok N.sign
  dsimp only at hga₅ hshow hother hev₅
  have hcreds₃ : N.counted.ga.creds = w.ga.creds := by rw [hga₂]
  have hcreds₆ : N.extended.ga.creds = N.named.ga.creds := by rw [hga₆]
  have hrp₆ : N.extended.ga.authData.rpIdHash = w.ga.authData.rpIdHash := by rw [hga₆, hga₅, hga₂]
  have hfl₆ : upUv N.extended.ga.authData.flags = upUv w.ga.authData.flags := by
    rw [hflags₆, hga₅, hga₂]
  have hhash₆ : N.extended.ga.clientDataHash = w.ga.clientDataHash := by rw [hga₆, hga₅, hga₂]
  have hev₃ : N.named.assertionEvents = N.counted.assertionEvents := hev₅
  rw [hev₆, hev₃, hev₂, hhash₆] at hev₇
  refine ⟨_, _, N.left, hev₇, ?_, ?_, ?_, ?_, ?_, ?_, ?_, ?_, ?_⟩
  · rw [hcreds₆, ← hcreds₃]
    exact hshow
  · rw [authDataRpIdHash_bytes, hrp₆]
  · rw [authDataFlags_bytes, hfl₆]
  · rw [hga₇, hga₆, hga₅, hga₂]
  · rw [hga₇, hga₆, hga₅, hga₂]
  · rw [hga₇, hhash₆]
  · intro i hi
    rw [hga₇, hcreds₆, hother i hi, hcreds₃]
  · rw [hga₇, hrp₆]
  · rw [hga₇, hfl₆]

/-- A successful authenticatorGetAssertion: the first credential of the filtered list is used, and
the others are saved with the data of the request. -/
structure Asserted (P : Platform) (w w' : World) (GA : GetAssertion) (creds : List CredentialDescriptor)
    (cred : CredentialDescriptor) (authData : List UInt8) : Prop where
  events : w'.assertionEvents = w.assertionEvents
    ++ ([.filtered creds] ++ GA.presenceEvents ++ [.signed cred authData GA.clientDataHash])
  shows : ∃ c, creds[0]? = some c ∧ cred.Shows c
  rpIdHash : authDataRpIdHash authData = (P.prims.sha256 GA.rp.bytes).toList
  flags : FlagsOf GA w'.ga.userVerified (authDataFlags authData)
  index : w'.ga.index = 0
  count : w'.ga.count.toNat + 1 = creds.length
  few : creds.length ≤ 20
  hash : 1 < creds.length → w'.ga.clientDataHash = GA.clientDataHash
  saved : ∀ i, i + 1 < creds.length → creds[i + 1]? = some (w'.ga.creds.nth i)
  rpIdHash_kept : w'.ga.authData.rpIdHash = P.prims.sha256 GA.rp.bytes
  flags_kept : upUv w'.ga.authData.flags = upUv (authDataFlags authData)

theorem Asserted.signed_mem {GA : GetAssertion} {creds : List CredentialDescriptor}
    {cred : CredentialDescriptor} {authData : List UInt8} (h : Asserted P w w' GA creds cred authData) :
    .signed cred authData GA.clientDataHash ∈ w'.assertionEvents := by
  rw [h.events]
  exact List.mem_append_right _ (List.mem_append_right _ (List.mem_singleton_self _))

/-- The one signature of a request. -/
theorem Asserted.signed_eq {GA : GetAssertion} {creds : List CredentialDescriptor}
    {cred cred' : CredentialDescriptor} {authData authData' : List UInt8} {hash : Bytes 32}
    (h : Asserted P w w' GA creds cred authData) (hw : w.assertionEvents = [])
    (hs : .signed cred' authData' hash ∈ w'.assertionEvents) : cred = cred' ∧ authData = authData' := by
  rw [h.events, hw, List.nil_append, List.mem_append, List.mem_append] at hs
  rcases hs with (hs | hs) | hs
  · simp at hs
  · unfold GetAssertion.presenceEvents at hs
    split at hs <;> simp at hs
  · simp only [List.mem_singleton, Event.signed.injEq] at hs
    exact ⟨hs.1.symm, hs.2.1.symm⟩

theorem buildFilteredCredentialList_ok {GA : GetAssertion} {hash : Bytes 32} {l : Bytes 16} {n : Nat}
    (h : buildFilteredCredentialList P GA hash l w = .ok n w') :
    (w'.ga.creds, n) = filterCredentials P (w.filter hash l) GA.credLen w.ga.creds ∧
      w'.ga = { w.ga with creds := w'.ga.creds } ∧
      w'.assertionEvents = w.assertionEvents ++ [.filtered (w'.ga.creds.toList.take n)] := by
  unfold buildFilteredCredentialList at h
  rw [get_bind] at h
  rw [bind_eq_ok] at h
  obtain ⟨⟨⟩, w₁, hset, h⟩ := h
  rw [bind_eq_ok] at h
  obtain ⟨⟨⟩, w₂, hemit, h⟩ := h
  obtain ⟨rfl, rfl⟩ := pure_eq_ok.mp h
  obtain rfl := modify_eq_ok.mp hset
  obtain rfl := emit_eq_ok.mp hemit
  exact ⟨rfl, rfl, by simp [World.assertionEvents, Event.isAssertion]⟩

theorem FlagsOf.congr {GA : GetAssertion} {uv f f' : UInt8} (h : FlagsOf GA uv f)
    (hf : upUv f' = upUv f) : FlagsOf GA uv f' := by
  obtain ⟨h₁, h₄⟩ : f' &&& 1 = f &&& 1 ∧ f' &&& 4 = f &&& 4 := by simpa [upUv] using hf
  exact ⟨h₁.trans h.up, h₄.trans h.uv⟩

/-- The filtered list of a request. -/
def AssertionRun.creds {request : List UInt8} (A : AssertionRun P request w w') :
    List CredentialDescriptor := A.listed.ga.creds.toList.take A.count

theorem getElem?_take_nth {creds : Creds} {n i : Nat} (hi : i < n) (hn : n ≤ 20) :
    (creds.toList.take n)[i]? = some (creds.nth i) := by
  have hlen : i < creds.toList.length := by rw [List.Vector.toList_length]; omega
  rw [List.getElem?_take_of_lt hi]
  unfold Creds.nth
  rw [List.getD_eq_getElem?_getD, List.getElem?_eq_getElem hlen, Option.getD_some]

theorem AssertionRun.asserted {request : List UInt8} (A : AssertionRun P request w w') :
    ∃ cred authData, Asserted P w w' A.GA A.creds cred authData := by
  obtain ⟨-, hga₃, hev₃⟩ := buildFilteredCredentialList_ok A.list
  obtain ⟨⟨creds, hga₄⟩, hshow, hother, hev₄⟩ := hideName_ok A.name
  obtain ⟨head, hga₅, hhash, hflags, hev₅, -⟩ := makeAssertionAuthData_ok A.make
  obtain ⟨⟨buf, flags, hga₆⟩, hflags₆⟩ := assertionExtensions_ok A.extend
  have hev₆ : A.extended.assertionEvents = A.made.assertionEvents :=
    (touches_assertionExtensions .assertionEvents (by decide)).ok A.extend
  obtain ⟨hga₇, hev₇⟩ := encodeAssertionResponse_ok A.sign
  obtain ⟨hn, hcount, hindex, hsaved, hclient, hauth, huv⟩ := saveCredentialList_ok A.save
  have hev₈ : w'.assertionEvents = A.signed.assertionEvents :=
    (touches_saveCredentialList .assertionEvents (by decide)).ok A.save
  have hev₂ : A.verified.assertionEvents = w.assertionEvents :=
    ((touches_verifyGetAssertionAuth .assertionEvents (by decide)).ok A.verify).trans
      ((touches_parseGetAssertionRequest .assertionEvents (by decide)).ok A.parse)
  have hpos := A.count_ne_zero
  have hlen : A.creds.length = A.count := by
    unfold AssertionRun.creds
    rw [List.length_take, List.Vector.toList_length]
    omega
  have hcreds₆ : A.extended.ga.creds = A.named.ga.creds := by rw [hga₆, hga₅]
  have huv₇ : w'.ga.userVerified = A.named.ga.userVerified := by rw [huv, hga₇, hga₆, hga₅]
  have hauth₆ : A.extended.ga.authData.rpIdHash = P.prims.sha256 A.GA.rp.bytes := by
    rw [hga₆, hga₅]
    exact hhash
  have hfl₆ : upUv A.extended.ga.authData.flags = upUv head.flags := by
    rw [hflags₆, hga₅]
  refine ⟨A.extended.ga.creds.nth 0, A.extended.ga.authDataBytes A.size, ?_, ⟨A.listed.ga.creds.nth 0, 
    getElem?_take_nth (by omega) (by omega), ?_⟩, ?_, ?_, hindex, ?_, by omega, fun h => hclient (by omega), fun i hi => ?_, ?_, ?_⟩
  · rw [hev₈, hev₇, hev₆, hev₅, hev₄, hev₃, hev₂]
    simp only [List.append_assoc]
    rfl
  · rw [hcreds₆]
    exact hshow
  · rw [authDataRpIdHash_bytes, hauth₆]
  · rw [authDataFlags_bytes, huv₇]
    exact hflags.congr hfl₆
  · rw [hcount, hlen, UInt32.toNat_ofNat']
    omega
  · rw [hlen] at hi
    have h := hsaved i (by omega)
    rw [hga₇, hcreds₆, hother (i + 1) (by omega)] at h
    rw [h]
    exact getElem?_take_nth hi (by omega)
  · rw [hauth, hga₇, hauth₆]
  · rw [hauth, hga₇, authDataFlags_bytes]

/-! ## Served assertions -/

section Served

variable {w₁ : World} {cmd : UInt8} {cred : CredentialDescriptor} {authData : List UInt8}
  (hw : w' = { w₁ with ga := { w₁.ga with lastcmd := cmd } })

include hw

theorem Asserted.with_lastcmd {GA : GetAssertion} {creds : List CredentialDescriptor}
    (h : Asserted P w w₁ GA creds cred authData) : Asserted P w w' GA creds cred authData := by
  subst hw
  exact ⟨h.events, h.shows, h.rpIdHash, h.flags, h.index, h.count, h.few, h.hash, h.saved,
    h.rpIdHash_kept, h.flags_kept⟩

theorem NextAsserted.with_lastcmd (h : NextAsserted w w₁ cred authData) :
    NextAsserted w w' cred authData := by
  subst hw
  exact ⟨h.left, h.events, h.shows, h.rpIdHash, h.flags, h.index, h.count, h.hash, h.saved,
    h.rpIdHash_kept, h.flags_kept⟩

end Served

/-- The parsed request of authenticatorGetAssertion. -/
def Served.ParsesAssertion (r : Served) (GA : GetAssertion) : Prop :=
  ∃ w, parseGetAssertionRequest r.request (r.before.withInputs r.after.inputs) = .ok GA w

/-- A served authenticatorGetAssertion that succeeded. -/
theorem Served.Valid.asserted {r : Served} (hv : r.Valid P) (hc : commandOf r.cmd = .getAssertion)
    (hok : r.status = .ok) : ∃ GA creds cred authData, r.ParsesAssertion GA ∧
      Asserted P (r.before.withInputs r.after.inputs) r.after GA creds cred authData := by
  obtain ⟨w₁, hafter, hd⟩ := hv.run
  rcases hd with ⟨-, hd⟩ | ⟨e, herr, -⟩
  · have hcmd := (dispatch_ok hd).2
    rw [hc] at hcmd
    obtain ⟨A⟩ := ctapGetAssertion_ok hcmd
    obtain ⟨cred, authData, h⟩ := A.asserted
    exact ⟨A.GA, A.creds, cred, authData, ⟨_, A.parse⟩, h.with_lastcmd hafter⟩
  · rw [hok] at herr
    cases herr

/-- A served authenticatorGetNextAssertion that succeeded. -/
theorem Served.Valid.nextAsserted {r : Served} (hv : r.Valid P)
    (hc : commandOf r.cmd = .getNextAssertion) (hok : r.status = .ok) :
    r.before.ga.lastcmd = 0x02 ∧
      ∃ cred authData, NextAsserted (r.before.withInputs r.after.inputs) r.after cred authData := by
  obtain ⟨w₁, hafter, hd⟩ := hv.run
  rcases hd with ⟨-, hd⟩ | ⟨e, herr, -⟩
  · have hcmd := (dispatch_ok hd).2
    rw [hc] at hcmd
    obtain ⟨N⟩ := ctapGetNextAssertion_ok hcmd.2
    obtain ⟨cred, authData, h⟩ := N.nextAsserted
    exact ⟨hcmd.1, cred, authData, h.with_lastcmd hafter⟩
  · rw [hok] at herr
    cases herr

end TkeyFido2
