import TkeyFido2.Ctap.Filter
import TkeyFido2.Ctap.PinAttempts

/-!
# Which key signs

The keys of credentials are derived from the session keys.  Only a reset changes these, and an assertion
is signed with the key that is derived from the bytes of the selected credential ID.
-/

namespace TkeyFido2

open Cbor Prog

variable {P : Platform} {w w' : World}

/-! ## Session keys -/

theorem keys_dispatch {c : Command} {request : List UInt8} {k : SessionKeys} (hc : c ≠ .reset) :
    Preserves (fun w : World => w.keys = k) (dispatch P c request) := by
  have hI {S : List Part} (hS : Part.keys ∉ S) : Ignores S (fun w : World => w.keys = k) :=
    fun w w' h hw => (h .keys hS).trans hw
  have hkeeps {S : List Part} {α : Type} {m : CtapM α} (hm : Touches S m) (hS : Part.keys ∉ S) :
      Preserves (fun w : World => w.keys = k) m := (hI hS).preserves hm (List.Subset.refl _)
  exact preserves_dispatch (hI (by decide)) (hkeeps touches_ctapMakeCredential (by decide))
    (hkeeps touches_ctapClientPin (by decide)) (hkeeps touches_ctapCredentialManagement (by decide)) c
    fun h => absurd h hc

/-- A request that does not reset the device keeps its keys. -/
theorem Served.Valid.keys_kept {r : Served} (hv : r.Valid P) (hno : r.resets = false) :
    r.after.keys = r.before.keys := by
  obtain ⟨w₁, hafter, hd⟩ := hv.run
  have hkeys : w₁.keys = r.before.keys := by
    by_cases hc : commandOf r.cmd = .reset
    · rcases hd with ⟨hok, -⟩ | ⟨e, -, hd⟩
      · simp [Served.resets, hc, hok] at hno
      · rw [hc, dispatch_reset_eq] at hd
        have hends := ctapReset_ends (P := P) (r.before.withInputs r.after.inputs)
        rw [Ends, hd] at hends
        exact hends .keys (by decide)
    · have hkeep := @keys_dispatch P _ r.request _ hc (r.before.withInputs r.after.inputs) rfl
      rcases hd with ⟨-, hd⟩ | ⟨e, -, hd⟩
      · rwa [final_of_ok hd] at hkeep
      · rwa [final_of_error hd] at hkeep
  rw [hafter]
  exact hkeys

/-- A power cycle derives the same keys again. -/
theorem Boots.keys_kept (hb : Boots P w w') (hs : Synced P w) (hk : w.keys = P.deriveSessionKeys w.state.keySalt) :
    w'.keys = w.keys := by
  obtain ⟨hstate, -, -, -, hst⟩ := hb.of_stored hs.file hs.version
  rw [hst.keys, hstate, (started_keeps _ _).1, hk]

/-! ## Signatures -/

/-- The algorithm that `ctap_sign_data` signs with. -/
def CoseAlg.signing (alg : CoseAlg) : CoseAlg := if alg = .eddsa then .eddsa else .es256

theorem ctapSignData_ok {key hash : Bytes 32} {data : List UInt8} {alg : CoseAlg} {sig : List UInt8}
    (hlen : data.length ≤ 512) (h : ctapSignData P key data hash alg w = .ok sig w') :
    w'.signatures = w.signatures ++ [.signature alg.signing key sig] := by
  have hemit {w₁ w₂ : World} {alg : CoseAlg} {sig : List UInt8}
      (h : emit (.signature alg key sig) w₁ = .ok () w₂) :
      w₂.signatures = w₁.signatures ++ [.signature alg key sig] := by
    rw [emit_eq_ok.mp h]
    unfold World.signatures
    rw [List.filter_append]
    rfl
  unfold ctapSignData at h
  unfold CoseAlg.signing
  by_cases halg : alg = .eddsa
  · rw [if_pos halg, if_neg (not_lt.mpr hlen), bind_eq_ok] at h
    obtain ⟨⟨⟩, w₁, he, h⟩ := h
    obtain ⟨rfl, rfl⟩ := pure_eq_ok.mp h
    rw [if_pos halg]
    exact hemit he
  · rw [if_neg halg, bind_eq_ok] at h
    obtain ⟨res, w₁, hdraw, h⟩ := h
    have hdraw' : w₁.signatures = w.signatures := (touches_drawing .signatures (by decide)).ok hdraw
    cases res with
    | none => exact absurd h (by simp)
    | some s =>
      rw [bind_eq_ok] at h
      obtain ⟨⟨⟩, w₂, he, h⟩ := h
      obtain ⟨rfl, rfl⟩ := pure_eq_ok.mp h
      rw [if_neg halg, hemit he, hdraw']

/-- The private key of a credential. -/
def CredentialDescriptor.privateKey (cred : CredentialDescriptor) (C : Primitives) (k : SessionKeys) : Bytes 32 :=
  cryptoDeriveCredentialKey C k cred.idBytes

theorem signing_restored (C : Primitives) (k : SessionKeys) (id : CredentialId) :
    (ctapRestoreMetadataCoseAlg C k id).signing = ctapRestoreMetadataCoseAlg C k id := by
  unfold ctapRestoreMetadataCoseAlg
  split <;> rfl

/-- `ctap_get_assertion_cbor_encode_assertion_response` makes one signature, with the key of its credential. -/
theorem encodeAssertionResponse_signature {map map' : Encoder} {cred : CredentialDescriptor}
    {authData : List UInt8} {hash : Bytes 32} (hlen : authData.length ≤ 512)
    (h : encodeAssertionResponse P map cred authData hash w = .ok map' w') :
    ∃ sig, w'.signatures = w.signatures
      ++ [.signature (ctapRestoreMetadataCoseAlg P.prims w.keys cred.id) (cred.privateKey P.prims w.keys) sig] := by
  obtain ⟨sig, w₁, w₂, hsig, hemit, hrest⟩ := encodeAssertionResponse_stages h
  have hlast : w'.signatures = w₁.signatures :=
    (hrest .signatures).trans ((touches_emit_assertion rfl .signatures (by decide)).ok hemit)
  refine ⟨sig, ?_⟩
  rw [hlast, ctapSignData_ok hlen hsig, signing_restored]
  rfl

theorem length_authDataBytes_le (s : GetAssertionState) (size : Nat) : (s.authDataBytes size).length ≤ 512 := by
  unfold GetAssertionState.authDataBytes AuthDataHeader.bytes
  simp only [List.length_append, List.length_take, List.Vector.toList_length, List.length_singleton, length_be32]
  omega

/-- What is as before the request when the response is made. -/
theorem AssertionRun.extended_view {request : List UInt8} (A : AssertionRun P request w w') {p : Part}
    (hp : p ∉ [Part.inputs, .token, .verified, .usage, .ga, .assertionEvents, .upDisabled, .counter, .hmacOutputs]) :
    p.view A.extended = p.view w := by
  have hnot {S : List Part} (hS : S ⊆ [Part.inputs, .token, .verified, .usage, .ga, .assertionEvents, .upDisabled,
      .counter, .hmacOutputs]) : p ∉ S := fun h => hp (hS h)
  calc p.view A.extended = p.view A.made := (touches_assertionExtensions p (hnot (by decide))).ok A.extend
    _ = p.view A.named := (touches_makeAssertionAuthData p (hnot (by decide))).ok A.make
    _ = p.view A.listed := (touches_onlyIf touches_hideName p (hnot (by decide))).ok A.name
    _ = p.view A.verified := (touches_buildFilteredCredentialList p (hnot (by decide))).ok A.list
    _ = p.view A.parsed := (touches_verifyGetAssertionAuth p (hnot (by decide))).ok A.verify
    _ = p.view w := (touches_parseGetAssertionRequest p (hnot (by decide))).ok A.parse

theorem NextRun.extended_view (N : NextRun P w w') {p : Part}
    (hp : p ∉ [Part.inputs, .counter, .ga, .hmacOutputs]) : p.view N.extended = p.view w := by
  have hnot {S : List Part} (hS : S ⊆ [Part.inputs, .counter, .ga, .hmacOutputs]) : p ∉ S := fun h => hp (hS h)
  have hga (v : World) (ga : GetAssertionState) : p.view { v with ga := ga } = p.view v := by
    cases p <;> first | rfl | simp at hp
  calc p.view N.extended = p.view N.named := (touches_nextExtensions p (hnot (by decide))).ok N.extend
    _ = p.view N.counted := ((touches_onlyIf touches_hideName p (hnot (by decide))).ok N.name).trans (hga _ _)
    _ = p.view w := ((touches_ctapAuthDataUpdateCount p (hnot (by decide))).ok N.update).trans (hga _ _)

/-- What an assertion is signed with. -/
theorem AssertionRun.signature {request : List UInt8} (A : AssertionRun P request w w')
    (hw : w.assertionEvents = []) {cred : CredentialDescriptor} {authData : List UInt8} {hash : Bytes 32}
    (hs : .signed cred authData hash ∈ w'.assertionEvents) :
    ∃ sig, w'.signatures = w.signatures ++ [.signature (ctapRestoreMetadataCoseAlg P.prims w.keys cred.id)
      (cred.privateKey P.prims w.keys) sig] := by
  have hsave (p : Part) (hp : p ∉ [Part.ga]) : p.view w' = p.view A.signed :=
    (touches_saveCredentialList p hp).ok A.save
  have hkeys : A.extended.keys = w.keys := A.extended_view (p := .keys) (by decide)
  have hsigs : A.extended.signatures = w.signatures := A.extended_view (p := .signatures) (by decide)
  obtain ⟨cred', authData', h⟩ := A.asserted
  have hfirst : .signed (A.extended.ga.creds.nth 0) (A.extended.ga.authDataBytes A.size) A.GA.clientDataHash
      ∈ w'.assertionEvents := by
    have hev : w'.assertionEvents = A.signed.assertionEvents := hsave .assertionEvents (by decide)
    rw [hev, (encodeAssertionResponse_ok A.sign).2]
    exact List.mem_append_right _ (List.mem_singleton_self _)
  obtain rfl := (h.signed_eq hw hs).1
  obtain rfl := (h.signed_eq hw hfirst).1
  obtain ⟨sig, hsig⟩ := encodeAssertionResponse_signature (length_authDataBytes_le _ _) A.sign
  rw [hsigs, hkeys] at hsig
  exact ⟨sig, (hsave .signatures (by decide)).trans hsig⟩

/-- What a continuation is signed with. -/
theorem NextRun.signature (N : NextRun P w w') (hw : w.assertionEvents = []) {cred : CredentialDescriptor}
    {authData : List UInt8} {hash : Bytes 32} (hs : .signed cred authData hash ∈ w'.assertionEvents) :
    ∃ sig, w'.signatures = w.signatures ++ [.signature (ctapRestoreMetadataCoseAlg P.prims w.keys cred.id)
      (cred.privateKey P.prims w.keys) sig] := by
  have hkeys : N.extended.keys = w.keys := N.extended_view (p := .keys) (by decide)
  have hsigs : N.extended.signatures = w.signatures := N.extended_view (p := .signatures) (by decide)
  have hevents : N.extended.assertionEvents = w.assertionEvents := N.extended_view (p := .assertionEvents) (by decide)
  rw [(encodeAssertionResponse_ok N.sign).2, hevents, hw, List.nil_append, List.mem_singleton] at hs
  obtain rfl := (Event.signed.inj hs).1
  obtain ⟨sig, hsig⟩ := encodeAssertionResponse_signature (length_authDataBytes_le _ _) N.sign
  rw [hsigs, hkeys] at hsig
  exact ⟨sig, hsig⟩

/-- The one signature of a request: the algorithm in the metadata of the credential, and the key of its ID. -/
def Served.SignedFor (P : Platform) (r : Served) (cred : CredentialDescriptor) : Prop :=
  ∃ sig, r.after.signatures = [.signature (ctapRestoreMetadataCoseAlg P.prims r.before.keys cred.id)
    (cred.privateKey P.prims r.before.keys) sig]

theorem Served.Valid.signedFor {r : Served} {cred : CredentialDescriptor} (hv : r.Valid P)
    (hc : commandOf r.cmd ∈ [.getAssertion, .getNextAssertion]) (hok : r.status = .ok) (hs : r.SignsWith cred) :
    r.SignedFor P cred := by
  obtain ⟨authData, hash, hs⟩ := hs
  obtain ⟨w₁, hafter, hd⟩ := hv.run
  rcases hd with ⟨-, hd⟩ | ⟨e, herr, -⟩
  · have hcmd := (dispatch_ok hd).2
    unfold Served.SignedFor
    rw [hafter] at hs ⊢
    simp only [List.mem_cons, List.not_mem_nil, or_false] at hc
    rcases hc with hc | hc
    · rw [hc] at hcmd
      obtain ⟨A⟩ := ctapGetAssertion_ok hcmd
      exact A.signature rfl hs
    · rw [hc] at hcmd
      obtain ⟨N⟩ := ctapGetNextAssertion_ok hcmd.2
      exact N.signature rfl hs
  · rw [hok] at herr
    cases herr

end TkeyFido2
