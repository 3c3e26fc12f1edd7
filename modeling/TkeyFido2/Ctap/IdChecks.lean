import TkeyFido2.Ctap.ResponseRoom

/-!
# The two checks of a credential ID

`ctap_credential_belongs_to_rp` makes the tag of an ID with the lookup MAC of the RP ID hash.
`u2f_authenticate_credential` takes the first half of the hash itself for that value, once for the stored
lookup and once for the tag.
-/

namespace TkeyFido2

open Cbor Encoder Prog

variable {P : Platform} {w w' : World}

/-! ## Agreement -/

section Agreement

variable {C : Primitives} {k : SessionKeys} {id : CredentialId} {h : Bytes 32}

/-- The tag of an ID under a value for the RP. -/
def CredentialId.tagUnder (C : Primitives) (k : SessionKeys) (id : CredentialId) (rp : Bytes 16) : Bytes 16 :=
  ctapMakeAuthTag C k id.version rp id.nonce id.protectedMetadata id.count

/-- The two checks of a public key credential give the same answer. -/
def IdChecksAgree (C : Primitives) (k : SessionKeys) (id : CredentialId) (h : Bytes 32) : Prop :=
  ∀ user, (u2fAuthenticateKeyHandle C k id 57 h = true ↔
    ctapCredentialBelongsToRp C k (rpIdLookupOf C k h) h ⟨.pubKey, id, user⟩ = true)

theorem u2fAuthenticateKeyHandle_iff : u2fAuthenticateKeyHandle C k id 57 h = true ↔
    id.rpIdLookup = h.slice 0 16 ∧ id.tag = id.tagUnder C k (h.slice 0 16) := by
  unfold u2fAuthenticateKeyHandle
  rw [if_pos rfl, Bool.and_eq_true, decide_eq_true_iff, decide_eq_true_iff]
  rfl

theorem ctapCredentialBelongsToRp_pubKey_iff {l : Bytes 16} {user : UserEntity} :
    ctapCredentialBelongsToRp C k l h ⟨.pubKey, id, user⟩ = true ↔ id.tag = id.tagUnder C k l :=
  decide_eq_true_iff

/-- They agree on the IDs that neither accepts, and on those that store the first half of the hash where that
half has the same tag as the lookup MAC. -/
theorem idChecksAgree_iff_tags : IdChecksAgree C k id h ↔
    (id.rpIdLookup = h.slice 0 16 ∧ id.tagUnder C k (h.slice 0 16) = id.tagUnder C k (rpIdLookupOf C k h)) ∨
      (id.tag ≠ id.tagUnder C k (rpIdLookupOf C k h) ∧
        ¬ (id.rpIdLookup = h.slice 0 16 ∧ id.tag = id.tagUnder C k (h.slice 0 16))) := by
  simp only [IdChecksAgree, u2fAuthenticateKeyHandle_iff, ctapCredentialBelongsToRp_pubKey_iff]
  constructor
  · intro hagree
    have hiff := hagree {}
    by_cases htag : id.tag = id.tagUnder C k (rpIdLookupOf C k h)
    · obtain ⟨hlookup, hhalf⟩ := hiff.mpr htag
      exact .inl ⟨hlookup, hhalf.symm.trans htag⟩
    · exact .inr ⟨htag, fun hboth => htag (hiff.mp hboth)⟩
  · rintro (⟨hlookup, hsame⟩ | ⟨hno, hnone⟩)
    · rw [hsame]
      exact fun _ => and_iff_right hlookup
    · exact fun _ => ⟨fun hboth => absurd hboth hnone, fun htag => absurd htag hno⟩

end Agreement

/-! ## New credentials -/

section New

/-- The response of a registration with this credential ID in its authenticator data. -/
def Registers (out : List UInt8) (id : CredentialId) : Prop :=
  ∃ packed authData rest, out = (formatEncoder packed).out ++ (authDataBytes authData ++ rest) ∧
    (authData.drop 55).take 57 = id.raw.toList

variable {MC : MakeCredential} {h : Bytes 32} {l : Bytes 16} {out : List UInt8}

/-- The response of a registration holds its authenticator data. -/
theorem makeCredentialResponse_authData (hMC : MC.Parsed) (hparams : MC.pubKeyCredParamsParsed = true)
    (hok : makeCredentialResponse P MC h l w = .ok out w') : ∃ (authData rest : List UInt8) (w₁ : World),
      makeCredentialAuthData P MC h l w = .ok authData w₁ ∧
        (∀ p ∉ [Part.inputs, .signatures], p.view w' = p.view w₁) ∧
        out = (formatEncoder w.attestationKey.isSome).out ++ (authDataBytes authData ++ rest) := by
  rw [makeCredentialResponse_eq, bind_eq_ok] at hok
  obtain ⟨authData, w₁, hauth, hok⟩ := hok
  obtain ⟨hsize, -, hfixed⟩ := (makeCredentialAuthData_keeps hMC hparams).ok hauth
  have hkey := (attestation_of_fixed hfixed).1
  suffices hshape : ∃ rest, out = (formatEncoder w.attestationKey.isSome).out ++ (authDataBytes authData ++ rest) by
    obtain ⟨rest, hout⟩ := hshape
    exact ⟨authData, rest, w₁, hauth, fun p hp => (touches_makeCredentialStatement p hp).ok hok, hout⟩
  cases hsome : w.attestationKey.isSome with
  | false =>
    rw [hsome] at hok
    have hnone : w₁.attestationKey = none := by rw [hkey, ← Option.not_isSome_iff_eq_none, hsome]; simp
    exact (makeCredentialStatement_none rfl hnone (by show _ ≤ 1193; omega)).ok hok
  | true =>
    rw [hsome] at hok
    have hsome₁ : w₁.attestationKey.isSome = true := by rw [hkey, hsome]
    cases hcert : attestationReadCert w₁ with
    | none => exact ((makeCredentialStatement_unread hsome₁ hcert).ok hok).elim
    | some cert =>
      obtain ⟨_, _, -, -, hshape⟩ :=
        (makeCredentialStatement_packed rfl hsome₁ hcert (by show _ ≤ 1191; omega)).ok hok
      exact hshape

theorem makeCredentialResponse_registers (hMC : MC.Parsed) (hparams : MC.pubKeyCredParamsParsed = true)
    (hok : makeCredentialResponse P MC h l w = .ok out w') :
    ∃ nonce n, Registers out (newCredentialId P w.keys l nonce n MC.credInfo MC.extensions) := by
  obtain ⟨authData, rest, w₁, hauth, -, hout⟩ := makeCredentialResponse_authData hMC hparams hok
  obtain ⟨-, n, nonce, hid⟩ := (makeCredentialAuthData_ends hMC hparams).ok hauth
  exact ⟨nonce, n, _, authData, rest, hout, hid⟩

/-- A new credential belongs to its RP in the view of U2F only where the lookup MAC is the first half of the hash. -/
theorem u2fAuthenticateKeyHandle_new {k : SessionKeys} {nonce : Bytes 16} {n : UInt32} {c : CredInfo} {e : Extensions} :
    u2fAuthenticateKeyHandle P.prims k (newCredentialId P k l nonce n c e) 57 h = true ↔ l = h.slice 0 16 := by
  rw [u2fAuthenticateKeyHandle_iff]
  unfold newCredentialId CredentialId.tagUnder
  simp only [CredentialId.make_rpIdLookup, CredentialId.make_tag, CredentialId.make_version,
    CredentialId.make_nonce, CredentialId.make_protectedMetadata, CredentialId.make_count]
  constructor
  · exact And.left
  · rintro rfl
    exact ⟨rfl, rfl⟩

theorem ctapMakeCredential_registers {request : List UInt8} (hok : ctapMakeCredential P request w = .ok out w') :
    ∃ MC id, parseMakeCredential request = .ok MC ∧ Registers out id ∧
      (u2fAuthenticateKeyHandle P.prims w.keys id 57 (P.prims.sha256 MC.rp.bytes) = true ↔
        rpIdLookupOf P.prims w.keys (P.prims.sha256 MC.rp.bytes) = (P.prims.sha256 MC.rp.bytes).slice 0 16) := by
  rw [ctapMakeCredential_eq, bind_eq_ok] at hok
  obtain ⟨⟨MC, h, l⟩, w₁, hchecks, hok⟩ := hok
  rw [bind_eq_ok] at hok
  obtain ⟨_, w₂, hlist, hok⟩ := hok
  have hchecked := makeCredentialChecks_ok hchecks
  have hkeys : w₂.keys = w.keys :=
    ((touches_checkExcludeList .keys (by decide)).ok hlist).trans (hchecked.kept (p := .keys) (by decide))
  obtain ⟨nonce, n, hreg⟩ :=
    makeCredentialResponse_registers (parseMakeCredential_ok hchecked.parse) hchecked.params hok
  obtain rfl := hchecked.hash
  obtain rfl := hchecked.lookup
  refine ⟨MC, _, hchecked.parse, hreg, ?_⟩
  rw [hkeys]
  exact u2fAuthenticateKeyHandle_new

end New

/-! ## The two checks of a credential ID -/

/-- When the two checks agree, and when U2F accepts an ID that a registration has just made. -/
theorem credentialId_checks_agree_iff (P : Platform) :
    (∀ (k : SessionKeys) (id : CredentialId) (h : Bytes 32), IdChecksAgree P.prims k id h ↔
      (id.rpIdLookup = h.slice 0 16 ∧
        id.tagUnder P.prims k (h.slice 0 16) = id.tagUnder P.prims k (rpIdLookupOf P.prims k h)) ∨
      (id.tag ≠ id.tagUnder P.prims k (rpIdLookupOf P.prims k h) ∧
        ¬ (id.rpIdLookup = h.slice 0 16 ∧ id.tag = id.tagUnder P.prims k (h.slice 0 16)))) ∧
    ∀ (request : List UInt8) (w w' : World) (out : List UInt8),
      ctapMakeCredential P request w = .ok out w' →
        ∃ MC id, parseMakeCredential request = .ok MC ∧ Registers out id ∧
          (u2fAuthenticateKeyHandle P.prims w.keys id 57 (P.prims.sha256 MC.rp.bytes) = true ↔
            rpIdLookupOf P.prims w.keys (P.prims.sha256 MC.rp.bytes) = (P.prims.sha256 MC.rp.bytes).slice 0 16) :=
  ⟨fun _ _ _ => idChecksAgree_iff_tags, fun _ _ _ _ => ctapMakeCredential_registers⟩

/-- A request for a credential that is not discoverable. -/
def plainRequest : List UInt8 :=
  encMap [([1], encBytes (List.replicate 32 7)), ([2], encMap [(encString "id", encString "a")]),
    ([3], encMap [(encString "id", encBytes [1])]),
    ([4], [0x81] ++ encMap [(encString "alg", [0x26]), (encString "type", encString "public-key")])]

theorem plainRequest_run : ∃ out w', ctapMakeCredential simPlatform plainRequest simStart = .ok out w' := by
  obtain ⟨out, w', hok, -⟩ := run_of_test (p := fun _ _ => true) (m := ctapMakeCredential simPlatform plainRequest)
    (w := simStart) (by decide +kernel)
  exact ⟨out, w', hok⟩

theorem credentialId_checks_agree_iff_plain : ∃ out w' MC id,
    ctapMakeCredential simPlatform plainRequest simStart = .ok out w' ∧
      parseMakeCredential plainRequest = .ok MC ∧ Registers out id ∧
      (u2fAuthenticateKeyHandle simPrimitives simStart.keys id 57 (simSha256 MC.rp.bytes) = true ↔
        rpIdLookupOf simPrimitives simStart.keys (simSha256 MC.rp.bytes) = (simSha256 MC.rp.bytes).slice 0 16) := by
  obtain ⟨out, w', hok⟩ := plainRequest_run
  obtain ⟨MC, id, h⟩ := (credentialId_checks_agree_iff simPlatform).2 plainRequest simStart w' out hok
  exact ⟨out, w', MC, id, hok, h⟩

/-- A credential that the device makes for the RP ID "a", and a device that makes it: U2F does not know it. -/
theorem not_idChecksAgree : ¬ IdChecksAgree simPrimitives simStart.keys simCredential (simSha256 (ascii "a")) ∧
    ∃ out w' MC id, ctapMakeCredential simPlatform plainRequest simStart = .ok out w' ∧
      parseMakeCredential plainRequest = .ok MC ∧ Registers out id ∧
      u2fAuthenticateKeyHandle simPrimitives simStart.keys id 57 (simSha256 MC.rp.bytes) = false := by
  constructor
  · rw [idChecksAgree_iff_tags]
    decide +kernel
  · obtain ⟨out, w', hok⟩ := plainRequest_run
    obtain ⟨MC, id, hparse, hreg, hiff⟩ := ctapMakeCredential_registers hok
    refine ⟨out, w', MC, id, hok, hparse, hreg, ?_⟩
    obtain ⟨MC', hparse', htest⟩ := parse_of_test (x := parseMakeCredential plainRequest) (p := fun MC => decide
      (rpIdLookupOf simPrimitives simStart.keys (simSha256 MC.rp.bytes) ≠ (simSha256 MC.rp.bytes).slice 0 16))
      (by decide +kernel)
    obtain rfl := Except.ok.inj (hparse.symm.trans hparse')
    exact Bool.eq_false_iff.mpr fun hyes => of_decide_eq_true htest (hiff.mp hyes)

end TkeyFido2
