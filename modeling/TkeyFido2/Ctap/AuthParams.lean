import TkeyFido2.Ctap.Token
import TkeyFido2.Ctap.MakeCredentialStages
import TkeyFido2.Ctap.Simulator

/-!
# Lengths of a pinUvAuthParam

The parser takes 16 and 32 bytes for every protocol and keeps the length.  The checks behind it choose the
number of bytes that they compare by the protocol alone: 32 for protocol 2, 16 for every other number.
-/

namespace TkeyFido2

open Cbor Prog

variable {P : Platform} {w w' : World} {request : List UInt8}

/-! ## Checks of a parameter -/

/-- A pinUvAuthParam with the key of its protocol and the message that it is for. -/
structure AuthCheck where
  param : AuthParam
  pinProtocol : UInt8
  key : Bytes 32
  message : List UInt8

namespace AuthCheck

/-- 16 bytes for protocol 1, and 32 for protocol 2. -/
def WellFormed (a : AuthCheck) : Prop :=
  (a.pinProtocol = 1 ∧ a.param.len = 16) ∨ (a.pinProtocol = 2 ∧ a.param.len = 32)

/-- A well-formed parameter that is the truncated HMAC of the message. -/
def Genuine (C : Primitives) (a : AuthCheck) : Prop :=
  a.WellFormed ∧ a.param.param.toList.take a.param.len.toNat
    = (C.hmac a.key.toList a.message).toList.take a.param.len.toNat

/-- `ctap_client_pin_verify` accepts the parameter. -/
def Verifies (C : Primitives) (a : AuthCheck) : Prop :=
  clientPinVerify C a.key a.message a.param.param a.pinProtocol = true

theorem Verifies.genuine_iff {C : Primitives} {a : AuthCheck} (h : a.Verifies C) : a.Genuine C ↔ a.WellFormed := by
  refine ⟨And.left, fun hwf => ⟨hwf, ?_⟩⟩
  have hmac := of_decide_eq_true h
  have hlen : a.param.len.toNat = authParamSize a.pinProtocol := by
    unfold authParamSize
    rcases hwf with ⟨hproto, hlen⟩ | ⟨hproto, hlen⟩
    · rw [hproto, hlen]
      rfl
    · rw [hproto, hlen]
      rfl
  rwa [hlen]

end AuthCheck

/-- The first part of `update_pin_if_verified`, up to the check of the parameter. -/
def verifyNewPin (P : Platform) (newPinEnc : Bytes 80) (newPinEncLen : UInt8) (platformPubkey : Bytes 64)
    (pinUvAuthParam : Bytes 32) (pinHashEnc : Option (Bytes 32)) (pinProtocol : UInt8) : CtapM (Bytes 32) := do
  failIf (newPinEncLen < 64) .invalidParameter
  let (encKey, macKey) ← ecdh P platformPubkey pinProtocol
  failIf (¬ clientPinVerify P.prims macKey
    (newPinEnc.toList.take newPinEncLen.toNat ++ pinHashPart pinHashEnc pinProtocol)
    pinUvAuthParam pinProtocol) .pinAuthInvalid
  pure encKey

/-- The second part. -/
def storeNewPin (P : Platform) (newPinEnc : Bytes 80) (newPinEncLen : UInt8) (pinHashEnc : Option (Bytes 32))
    (pinProtocol : UInt8) (encKey : Bytes 32) : CtapM Unit := do
  let decLen := (newPinEncLen.toNat + 15) / 16 * 16
  let newPin ← ctapCheck (decrypt P.prims newPinEnc decLen encKey pinProtocol)
  let newPinLen := 64 - trailingZeros newPin 63
  failIf (newPinLen < 4 ∨ 64 ≤ newPinLen) .pinPolicyViolation
  verifyCurrentPinIfSet P pinHashEnc encKey pinProtocol
  storePin P (newPin.toList.take newPinLen)

theorem updatePinIfVerified_eq {n : Bytes 80} {len : UInt8} {pub : Bytes 64} {a : Bytes 32} {h : Option (Bytes 32)}
    {proto : UInt8} : updatePinIfVerified P n len pub a h proto
      = verifyNewPin P n len pub a h proto >>= storeNewPin P n len h proto := by
  unfold updatePinIfVerified verifyNewPin
  simp only [bind_assoc, pure_bind]
  rfl

/-- The current PIN in a request, for changePIN. -/
def ClientPin.currentPin (CP : ClientPin) : Option (Bytes 32) :=
  if CP.subCommand = 4 then some CP.pinHashEnc else none

/-- In the state `w` the parameter of a request passes the check of its command.  Without a PIN, and for the
sub-commands that continue an enumeration, there is no check. -/
inductive AcceptsAuth (P : Platform) (w : World) (request : List UInt8) : AuthCheck → Prop
  | makeCredential {MC : MakeCredential} {w' : World} (hparse : parseMakeCredential request = .ok MC)
      (hset : clientPinIsSet w = true) (hok : verifyMakeCredentialAuth P MC w = .ok () w') :
      AcceptsAuth P w request ⟨MC.pinUvAuthParam, MC.pinProtocol, (w.token (slotOf MC.pinProtocol)).token,
        MC.clientDataHash.toList⟩
  | getAssertion {GA : GetAssertion} {h : Bytes 32} {w₀ w' : World}
      (hparse : parseGetAssertionRequest request w₀ = .ok GA w) (hpresent : 0 < GA.pinUvAuthParam.len)
      (hok : verifyGetAssertionAuth P GA h w = .ok () w') :
      AcceptsAuth P w request ⟨GA.pinUvAuthParam, GA.pinProtocol, (w.token (slotOf GA.pinProtocol)).token,
        GA.clientDataHash.toList⟩
  | credentialManagement {CM : CredMgmt} {w' : World} (hparse : parseCredentialManagementRequest request = .ok CM)
      (hsub : ¬ (CM.subCommand = 3 ∨ CM.subCommand = 5))
      (hok : verifyPinAuthForCredentialManagement P CM w = .ok () w') :
      AcceptsAuth P w request ⟨CM.pinUvAuthParam, CM.pinProtocol, (w.token (slotOf CM.pinProtocol)).token, CM.hashed⟩
  | clientPin {CP : ClientPin} {encKey macKey : Bytes 32} {w₁ w' : World}
      (hparse : parseClientPinRequest request = .ok CP) (hsub : CP.subCommand = 3 ∨ CP.subCommand = 4)
      (hproto : CP.pinProtocol = 1 ∨ CP.pinProtocol = 2)
      (hecdh : ecdh P CP.keyAgreement.pubkey CP.pinProtocol w = .ok (encKey, macKey) w₁)
      (hok : verifyNewPin P CP.newPinEnc CP.newPinEncSize CP.keyAgreement.pubkey CP.pinUvAuthParam.param CP.currentPin
        CP.pinProtocol w = .ok encKey w') :
      AcceptsAuth P w request ⟨CP.pinUvAuthParam, CP.pinProtocol, macKey,
        CP.newPinEnc.toList.take CP.newPinEncSize.toNat ++ pinHashPart CP.currentPin CP.pinProtocol⟩

/-! ## What is accepted -/

/-- The check of a token compares with the MAC under it. -/
theorem clientPinVerifyAuthEx_verifies {param : Bytes 32} {buf : List UInt8} {proto : UInt8}
    (h : clientPinVerifyAuthEx P param buf proto w = .ok () w') :
    clientPinVerify P.prims (w.token (slotOf proto)).token buf param proto = true := by
  obtain ⟨huse, hv, -, hweak⟩ := clientPinVerifyAuthEx_ok h
  rwa [(hweak (slotOf proto) huse).token] at hv

theorem AcceptsAuth.verifies {a : AuthCheck} (h : AcceptsAuth P w request a) : a.Verifies P.prims := by
  cases h with
  | makeCredential hparse hset hok =>
    unfold verifyMakeCredentialAuth at hok
    rw [get_bind, if_pos hset] at hok
    obtain ⟨-, hok⟩ := failIf_bind_eq_ok.mp hok
    obtain ⟨⟨⟩, w₁, hauth, -⟩ := bind_eq_ok.mp hok
    exact clientPinVerifyAuthEx_verifies hauth
  | getAssertion hparse hpresent hok =>
    unfold verifyGetAssertionAuth at hok
    rw [if_pos hpresent] at hok
    obtain ⟨-, hok⟩ := failIf_bind_eq_ok.mp hok
    obtain ⟨⟨⟩, w₁, hauth, -⟩ := bind_eq_ok.mp hok
    exact clientPinVerifyAuthEx_verifies hauth
  | credentialManagement hparse hsub hok =>
    unfold verifyPinAuthForCredentialManagement at hok
    rw [if_neg hsub] at hok
    obtain ⟨-, hok⟩ := failIf_bind_eq_ok.mp hok
    obtain ⟨-, hok⟩ := failIf_bind_eq_ok.mp hok
    obtain ⟨⟨⟩, w₁, hauth, -⟩ := bind_eq_ok.mp hok
    exact clientPinVerifyAuthEx_verifies hauth
  | clientPin hparse hsub hproto hecdh hok =>
    unfold verifyNewPin at hok
    obtain ⟨-, hok⟩ := failIf_bind_eq_ok.mp hok
    rw [bind_of_ok hecdh] at hok
    exact not_not.mp (failIf_bind_eq_ok.mp hok).1

/-- An accepted parameter is the MAC that its protocol prescribes if and only if the request names protocol 1
or 2 and the parameter has the length of that protocol. -/
theorem accepted_auth_genuine_iff {a : AuthCheck} (h : AcceptsAuth P w request a) :
    a.Genuine P.prims ↔ a.WellFormed := h.verifies.genuine_iff

/-! ## Requests that succeed -/

section Success

variable {out : List UInt8}

/-- With a PIN, a credential is made for an accepted parameter only. -/
theorem ctapMakeCredential_accepts (hset : clientPinIsSet w = true)
    (hok : ctapMakeCredential P request w = .ok out w') : ∃ a, AcceptsAuth P w request a := by
  rw [ctapMakeCredential_eq] at hok
  obtain ⟨⟨MC, h, l⟩, w₁, hchecks, -⟩ := bind_eq_ok.mp hok
  have hc := makeCredentialChecks_ok hchecks
  exact ⟨_, .makeCredential hc.parse hset hc.verify⟩

/-- A parameter in front of an assertion was accepted. -/
theorem ctapGetAssertion_accepts (hok : ctapGetAssertion P request w = .ok out w') :
    ∃ GA w₁, parseGetAssertionRequest request w = .ok GA w₁ ∧
      (0 < GA.pinUvAuthParam.len → ∃ a, AcceptsAuth P w₁ request a) := by
  unfold ctapGetAssertion at hok
  obtain ⟨GA, w₁, hparse, hok⟩ := bind_eq_ok.mp hok
  rw [bind_eq_ok] at hok
  obtain ⟨⟨⟩, w₂, hempty, hok⟩ := hok
  obtain rfl : w₂ = w₁ := by
    rcases onlyIf_eq_ok.mp hempty with ⟨-, h⟩ | ⟨-, h⟩
    · exact absurd h selectByTouch_ne_ok
    · exact h
  obtain ⟨-, hok⟩ := failIf_bind_eq_ok.mp hok
  rw [get_bind] at hok
  obtain ⟨⟨⟩, w₃, hverify, -⟩ := bind_eq_ok.mp hok
  exact ⟨GA, w₂, hparse, fun hpresent => ⟨_, .getAssertion hparse hpresent hverify⟩⟩

theorem ctapCredentialManagement_accepts (hok : ctapCredentialManagement P request w = .ok out w') :
    ∃ CM, parseCredentialManagementRequest request = .ok CM ∧
      (¬ (CM.subCommand = 3 ∨ CM.subCommand = 5) → ∃ a, AcceptsAuth P w request a) := by
  unfold ctapCredentialManagement at hok
  obtain ⟨CM, hparse, hok⟩ := ctapCheck_bind_eq_ok.mp hok
  obtain ⟨⟨⟩, w₁, hverify, -⟩ := bind_eq_ok.mp hok
  exact ⟨CM, hparse, fun hsub => ⟨_, .credentialManagement hparse hsub hverify⟩⟩

theorem updatePinIfVerified_verifies {n : Bytes 80} {len : UInt8} {pub : Bytes 64} {a : Bytes 32} {h : Option (Bytes 32)}
    {proto : UInt8} (hok : updatePinIfVerified P n len pub a h proto w = .ok () w') :
    ∃ encKey macKey w₁ w₂, ecdh P pub proto w = .ok (encKey, macKey) w₁ ∧
      verifyNewPin P n len pub a h proto w = .ok encKey w₂ := by
  rw [updatePinIfVerified_eq] at hok
  obtain ⟨encKey, w₂, hverify, -⟩ := bind_eq_ok.mp hok
  have hrun := hverify
  unfold verifyNewPin at hrun
  obtain ⟨-, hrun⟩ := failIf_bind_eq_ok.mp hrun
  obtain ⟨⟨encKey', macKey⟩, w₁, hecdh, hrun⟩ := bind_eq_ok.mp hrun
  obtain ⟨-, hrun⟩ := failIf_bind_eq_ok.mp hrun
  obtain ⟨rfl, -⟩ := pure_eq_ok.mp hrun
  exact ⟨_, macKey, w₁, w₂, hecdh, hverify⟩

/-- A PIN is set or changed for an accepted parameter only. -/
theorem ctapClientPin_accepts {CP : ClientPin} (hparse : parseClientPinRequest request = .ok CP)
    (hsub : CP.subCommand = 3 ∨ CP.subCommand = 4) (hok : ctapClientPin P request w = .ok out w') :
    ∃ key message, AcceptsAuth P w request ⟨CP.pinUvAuthParam, CP.pinProtocol, key, message⟩ := by
  unfold ctapClientPin at hok
  obtain ⟨CP', hparse', hok⟩ := ctapCheck_bind_eq_ok.mp hok
  obtain rfl := Except.ok.inj (hparse.symm.trans hparse')
  obtain ⟨-, hok⟩ := failIf_bind_eq_ok.mp hok
  obtain ⟨hinvalid, hok⟩ := failIf_bind_eq_ok.mp hok
  have hproto : CP.pinProtocol = 1 ∨ CP.pinProtocol = 2 := by
    by_contra hno
    exact hinvalid ⟨by rcases hsub with h | h <;> omega, fun h => hno (.inl h), fun h => hno (.inr h)⟩
  rw [if_neg (by rcases hsub with h | h <;> omega), if_neg (by rcases hsub with h | h <;> omega)] at hok
  rcases hsub with hset | hchange
  · rw [if_pos hset] at hok
    unfold setPin at hok
    obtain ⟨-, hok⟩ := failIf_bind_eq_ok.mp hok
    rw [get_bind] at hok
    obtain ⟨-, hok⟩ := failIf_bind_eq_ok.mp hok
    obtain ⟨⟨⟩, w₁, hupdate, -⟩ := bind_eq_ok.mp hok
    obtain ⟨encKey, macKey, w₂, w₃, hecdh, hverify⟩ := updatePinIfVerified_verifies hupdate
    have hcurrent : CP.currentPin = none := if_neg (by omega)
    rw [← hcurrent] at hverify
    exact ⟨_, _, .clientPin hparse (.inl hset) hproto hecdh hverify⟩
  · rw [if_neg (by omega), get_bind] at hok
    obtain ⟨-, hok⟩ := failIf_bind_eq_ok.mp hok
    rw [get_bind] at hok
    obtain ⟨-, hok⟩ := failIf_bind_eq_ok.mp hok
    rw [if_pos hchange] at hok
    unfold changePin at hok
    rw [get_bind] at hok
    obtain ⟨-, hok⟩ := failIf_bind_eq_ok.mp hok
    obtain ⟨-, hok⟩ := failIf_bind_eq_ok.mp hok
    obtain ⟨⟨⟩, w₁, hupdate, -⟩ := bind_eq_ok.mp hok
    obtain ⟨encKey, macKey, w₂, w₃, hecdh, hverify⟩ := updatePinIfVerified_verifies hupdate
    have hcurrent : CP.currentPin = some CP.pinHashEnc := if_pos hchange
    rw [← hcurrent] at hverify
    exact ⟨_, _, .clientPin hparse (.inr hchange) hproto hecdh hverify⟩

end Success

/-! ## A parameter of the wrong length -/

/-- setPIN under protocol 1 with the whole HMAC as its parameter. -/
def longParamRequest : List UInt8 :=
  let enc := simEncrypt (Bytes.ofList 64 (ascii "1234"))
  encMap [([1], [1]), ([2], [3]), ([3], simCoseKey),
    ([4], encBytes (simPrimitives.hmac simSecret.2.toList enc).toList), ([5], encBytes enc)]

theorem longParam_accepted : ∃ (out : List UInt8) (w' : World) (a : AuthCheck),
    ctapClientPin simPlatform longParamRequest simStart = .ok out w' ∧
      AcceptsAuth simPlatform simStart longParamRequest a ∧ a.pinProtocol = 1 ∧ a.param.len = 32 := by
  obtain ⟨CP, hparse, htest⟩ := parse_of_test (x := parseClientPinRequest longParamRequest)
    (p := fun CP => decide (CP.subCommand = 3 ∧ CP.pinProtocol = 1 ∧ CP.pinUvAuthParam.len = 32)) (by decide +kernel)
  obtain ⟨hsub, hproto, hlen⟩ := of_decide_eq_true htest
  obtain ⟨out, w', hok, -⟩ := run_of_test (p := fun _ _ => true)
    (m := ctapClientPin simPlatform longParamRequest) (w := simStart) (by decide +kernel)
  obtain ⟨key, message, haccept⟩ := ctapClientPin_accepts hparse (.inl hsub) hok
  exact ⟨out, w', _, hok, haccept, hproto, hlen⟩

/-- The PIN is set although the parameter is too long for protocol 1. -/
theorem longParam_not_genuine : ∃ out w' a, ctapClientPin simPlatform longParamRequest simStart = .ok out w' ∧
    AcceptsAuth simPlatform simStart longParamRequest a ∧ ¬ a.Genuine simPrimitives := by
  obtain ⟨out, w', a, hok, haccept, hproto, hlen⟩ := longParam_accepted
  refine ⟨out, w', a, hok, haccept, fun hgenuine => ?_⟩
  rcases hgenuine.1 with ⟨-, h⟩ | ⟨h, -⟩
  · exact absurd (hlen.symm.trans h) (by decide)
  · exact absurd (hproto.symm.trans h) (by decide)

theorem accepted_auth_genuine_iff_longParam : ∃ a, AcceptsAuth simPlatform simStart longParamRequest a ∧
    (a.Genuine simPrimitives ↔ a.WellFormed) := by
  obtain ⟨-, -, a, -, haccept, -⟩ := longParam_accepted
  exact ⟨a, haccept, accepted_auth_genuine_iff (P := simPlatform) haccept⟩

end TkeyFido2
