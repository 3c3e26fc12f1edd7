import TkeyFido2.Ctap.MakeCredentialStages
import TkeyFido2.Ctap.ExcludeList
import TkeyFido2.Ctap.U2f

/-!
# Room for the attestation certificate

Both kinds of registration put the certificate into the response buffer, together with a signature of up to
72 bytes.  `attestation_write_cert` accepts certificates of up to 1024 bytes; the largest response of
authenticatorMakeCredential leaves room for 879.
-/

namespace TkeyFido2

open Cbor Prog

variable {P : Platform} {w w' : World}

/-! ## authenticatorMakeCredential -/

/-- An encoder call of the response stage fails. -/
def EncoderOverflows (P : Platform) (request : List UInt8) (w : World) : Prop :=
  ∃ MC h l w₁ w₂ w₃, makeCredentialChecks P request w = .ok (MC, h, l) w₁ ∧
    checkExcludeList P MC h l w₁ = .ok () w₂ ∧
    makeCredentialResponse P MC h l w₂ = .error (.status .invalidCbor) w₃

/-- What the response stage starts from. -/
theorem Checked.fixed_kept {request : List UInt8} {MC : MakeCredential} {h : Bytes 32} {l : Bytes 16}
    {w₁ w₂ : World} (hc : Checked P request w w₁ MC h l) (hlist : checkExcludeList P MC h l w₁ = .ok () w₂) :
    w₂.fixed = w.fixed :=
  ((touches_checkExcludeList .fixed (by decide)).ok hlist).trans (hc.kept (p := .fixed) (by decide))

theorem packedSize_le {n d c : Nat} (hn : n ≤ 216) (hd : d ≤ 72) (hc : c ≤ 879) : packedSize n d c ≤ 1191 := by
  unfold packedSize byteStringSize
  rw [Encoder.length_numberBytes, Encoder.length_numberBytes, Encoder.length_numberBytes]
  split_ifs <;> omega

theorem packedSize_max {c : Nat} (hlow : 879 < c) (hhigh : c ≤ 1024) : 1191 < packedSize 216 72 c := by
  unfold packedSize byteStringSize
  rw [Encoder.length_numberBytes, Encoder.length_numberBytes, Encoder.length_numberBytes,
    if_neg (by omega), if_pos (by omega), if_neg (by omega), if_pos (by omega), if_neg (by omega),
    if_neg (by omega), if_pos (by omega)]
  omega

/-- With a certificate of up to 879 bytes no call of the encoder fails. -/
theorem not_encoderOverflows {cert request : List UInt8} (hcert : w.attestationCert = some cert)
    (hlen : cert.length ≤ 879) : ¬ EncoderOverflows P request w := by
  rintro ⟨MC, h, l, w₁, w₂, w₃, hchecks, hlist, hresp⟩
  have hc := makeCredentialChecks_ok hchecks
  have hMC := parseMakeCredential_ok hc.parse
  have hfixed := hc.fixed_kept hlist
  have hcert₂ : attestationReadCert w₂ = some cert :=
    (attestation_of_fixed hfixed).2.trans (attestationReadCert_eq hcert (hlen.trans (by decide)))
  cases hkey : w₂.attestationKey with
  | none =>
    rcases ((makeCredentialResponse_none hMC hc.params hkey).error hresp).2 with ⟨heq, -⟩ | ⟨heq, -⟩
    · exact absurd heq (by decide)
    · exact absurd heq (by decide)
  | some kn =>
    rcases (makeCredentialResponse_packed hMC hc.params (by rw [hkey]; rfl) hcert₂).error hresp with
      ⟨-, ⟨heq, -⟩ | ⟨heq, -⟩⟩ | ⟨data, hash, w₄, w₅, hsig⟩ | ⟨-, sigder, hsig, hfull⟩
    · exact absurd heq (by decide)
    · exact absurd heq (by decide)
    · exact List.not_mem_nil (raises_attestationSignature _ _ _ hsig)
    · exact Nat.not_lt.mpr (packedSize_le MC.authDataSize_le hsig hlen) hfull

/-! ## U2F -/

/-- The signer always produces a signature. -/
def Platform.Signs (P : Platform) : Prop := ∀ key hash random, (P.prims.eccSign key hash random).1 ≠ none

/-- A write that fits. -/
theorem ends_u2fResponseWriteback {out buf : List UInt8} {Q : List UInt8 → World → Prop}
    {E : Stop → World → Prop} (hfit : out.length + buf.length ≤ ctapResponseBufferSize) (hQ : Q (out ++ buf) w) :
    Ends (u2fResponseWriteback out buf) w Q E := by
  unfold u2fResponseWriteback
  rw [if_neg (Nat.not_lt.mpr hfit)]
  exact hQ

/-- A signature of the attestation key. -/
theorem cryptoEcc256Sign_ends (hP : P.Signs) {key hash : Bytes 32} :
    Ends (cryptoEcc256Sign P key hash) w (fun _ w' => w'.fixed = w.fixed) fun _ _ => False := by
  unfold cryptoEcc256Sign
  rw [ends_bind]
  unfold drawing
  rw [ends_modifyGet]
  cases hsig : (P.prims.eccSign key hash fun i => w.inputs.rng.byte (w.rngPos + i)).1 with
  | none => exact absurd hsig (hP _ _ _)
  | some sig => exact rfl

/-- The part of the response in front of the status word. -/
def U2fReply.response (r : U2fReply) : List UInt8 := if r.rcode = u2fSwNoError then r.out else []

theorem U2fReply.response_le {r : U2fReply} {n : Nat} (h : r.out.length ≤ n) : r.response.length ≤ n := by
  unfold U2fReply.response
  split
  · exact h
  · exact Nat.zero_le _

theorem u2fAuthenticate_ends (hP : P.Signs) {b : CtapBuffer} :
    Ends (u2fAuthenticate P b) w (fun r _ => r.response.length ≤ 1198) fun _ _ => False := by
  unfold u2fAuthenticate
  rw [ends_bind, ends_get]
  dsimp only
  rw [ends_ite]
  refine ⟨fun _ => U2fReply.response_le (Nat.zero_le _), fun _ => ?_⟩
  rw [ends_ite]
  refine ⟨fun _ => U2fReply.response_le (Nat.zero_le _), fun _ => ?_⟩
  have hrest : ∀ (touch : UpTest) (w₁ : World) (up : UInt8) (key : Bytes 32), Ends (do
      if touch = .absent then pure { rcode := u2fSwConditionsNotSatisfied }
      else
        let count ← ctapAtomicCount 0
        let sig ← cryptoEcc256Sign P key
          (P.prims.sha256 (b.app.toList ++ [up] ++ be32 count ++ b.chal.toList))
        let out ← u2fResponseWriteback [] [up]
        let out ← u2fResponseWriteback out (be32 count)
        let out ← u2fResponseWriteback out (ctapEncodeDerSig sig)
        pure { rcode := u2fSwNoError, out := out, sig := some sig } : CtapM U2fReply) w₁
      (fun r _ => r.response.length ≤ 1198) fun _ _ => False := by
    intro touch w₁ up key
    rw [ends_ite]
    refine ⟨fun _ => U2fReply.response_le (Nat.zero_le _), fun _ => ?_⟩
    have hcount : Raises (fun _ => False) (ctapAtomicCount 0) :=
      (raises_ite (raises_ctapGenerateRng.bind fun _ => raises_pure) raises_pure).bind fun _ =>
        raises_modifyGet.bind fun _ => raises_emit.bind fun _ => raises_pure
    rw [ends_bind]
    refine (ends_of_raises hcount).mono (fun count w₂ _ => ?_) fun _ _ hf => hf.elim
    rw [ends_bind]
    refine (cryptoEcc256Sign_ends hP).mono (fun sig w₃ _ => ?_) fun _ _ hf => hf.elim
    have hder := length_ctapEncodeDerSig_le sig
    rw [ends_bind]
    refine ends_u2fResponseWriteback (by simp [ctapResponseBufferSize]) ?_
    rw [ends_bind]
    refine ends_u2fResponseWriteback (by simp [ctapResponseBufferSize]) ?_
    rw [ends_bind]
    refine ends_u2fResponseWriteback (by simp [ctapResponseBufferSize]; omega) ?_
    refine U2fReply.response_le ?_
    simp
    omega
  by_cases hp1 : b.p1 = 8
  · rw [if_pos hp1, if_pos hp1, ends_bind, ends_pure]
    exact hrest _ _ _ _
  · rw [if_neg hp1, if_neg hp1, ends_bind]
    exact (ends_of_raises raises_ctapUserPresenceTest).mono (fun touch w₁ _ => hrest touch w₁ _ _)
      fun _ _ hf => hf.elim

/-- A certificate of up to 1009 bytes leaves room for the rest of a registration. -/
theorem u2fRegister_ends (hP : P.Signs) {b : CtapBuffer} {cert : List UInt8} (hcert : w.attestationCert = some cert)
    (hlen : cert.length ≤ 1009) :
    Ends (u2fRegister P b) w (fun r _ => r.response.length ≤ 1198) fun _ _ => False := by
  unfold u2fRegister
  rw [ends_bind]
  refine (ends_of_raises raises_ctapUserPresenceTest).mono (fun touch w₁ htouch => ?_) fun _ _ hf => hf.elim
  rw [ends_ite]
  refine ⟨fun _ => U2fReply.response_le (Nat.zero_le _), fun _ => ?_⟩
  rw [ends_bind]
  refine (ends_of_raises raises_ctapGenerateRng).mono (fun key w₂ hkey => ?_) fun _ _ hf => hf.elim
  rw [ends_bind, ends_get, ends_bind]
  have hpub {data : List UInt8} : Raises (fun _ => False) (cryptoEcc256DerivePublicKey P data) :=
    raises_get.bind fun _ => raises_drawing.bind fun _ => raises_pure
  refine (ends_of_raises hpub).mono (fun pubkey w₃ hpubkey => ?_) fun _ _ hf => hf.elim
  rw [ends_bind, ends_get]
  dsimp only
  rw [ends_bind]
  refine (cryptoEcc256Sign_ends hP).mono (fun sig w₄ hsig => ?_) fun _ _ hf => hf.elim
  have hder := length_ctapEncodeDerSig_le sig
  have hfixed : w₄.fixed = w.fixed :=
    hsig.trans (((touches_cryptoEcc256DerivePublicKey .fixed (by decide)).ok hpubkey).trans
      (((touches_ctapGenerateRng .fixed (by decide)).ok hkey).trans
        ((touches_ctapUserPresenceTest .fixed (by decide)).ok htouch)))
  have hread : attestationReadCert w₄ = some cert :=
    (attestation_of_fixed hfixed).2.trans (attestationReadCert_eq hcert (hlen.trans (by decide)))
  rw [ends_bind]
  refine ends_u2fResponseWriteback (by decide) ?_
  rw [ends_bind]
  refine ends_u2fResponseWriteback (by simp [ctapResponseBufferSize]) ?_
  rw [ends_bind]
  refine ends_u2fResponseWriteback (by simp [ctapResponseBufferSize]) ?_
  rw [ends_bind]
  refine ends_u2fResponseWriteback (by simp [ctapResponseBufferSize]) ?_
  rw [ends_bind, ends_get, hread]
  dsimp only
  rw [ends_bind]
  refine ends_u2fResponseWriteback (by simp [ctapResponseBufferSize]; omega) ?_
  rw [ends_bind]
  refine ends_u2fResponseWriteback (by simp [ctapResponseBufferSize]; omega) ?_
  refine U2fReply.response_le ?_
  simp
  omega

theorem u2fRequest_ends (hP : P.Signs) {b : CtapBuffer} {cert : List UInt8} (hcert : w.attestationCert = some cert)
    (hlen : cert.length ≤ 1009) : Ends (u2fRequest P b) w (fun _ _ => True) fun _ _ => False := by
  have hcommand : Ends (u2fCommand P b) w (fun r _ => r.response.length ≤ 1198) fun _ _ => False := by
    unfold u2fCommand
    split
    · rw [ends_ite]
      exact ⟨fun _ => U2fReply.response_le (Nat.zero_le _), fun _ => u2fRegister_ends hP hcert hlen⟩
    · exact u2fAuthenticate_ends hP
    · rw [ends_ite]
      refine ⟨fun _ => U2fReply.response_le (Nat.zero_le _), fun _ => ?_⟩
      unfold u2fVersion
      rw [ends_bind]
      exact ends_u2fResponseWriteback (by decide) (U2fReply.response_le (by decide))
    · exact U2fReply.response_le (Nat.zero_le _)
    · exact U2fReply.response_le (Nat.zero_le _)
    · exact U2fReply.response_le (Nat.zero_le _)
  have hstatus : ∀ (r : U2fReply) (w₁ : World), r.response.length ≤ 1198 → Ends (do
      let out := if r.rcode = u2fSwNoError then r.out else []
      let out ← u2fResponseWriteback out [UInt8.ofNat (r.rcode.toNat / 256)]
      let out ← u2fResponseWriteback out [UInt8.ofNat r.rcode.toNat]
      pure (out, (r.sig.map b.putSignature).getD b)) w₁ (fun _ _ => True) fun _ _ => False := by
    intro r w₁ hr
    show Ends (u2fResponseWriteback r.response _ >>= _) w₁ _ _
    rw [ends_bind]
    refine ends_u2fResponseWriteback (by simp [ctapResponseBufferSize]; omega) ?_
    rw [ends_bind]
    exact ends_u2fResponseWriteback (by simp [ctapResponseBufferSize]; omega) trivial
  unfold u2fRequest
  by_cases hcla : b.cla ≠ 0
  · rw [if_pos hcla, ends_bind, ends_pure]
    exact hstatus _ w (U2fReply.response_le (Nat.zero_le _))
  · rw [if_neg hcla, ends_bind]
    exact hcommand.mono (fun r w₁ hr => hstatus r w₁ hr) fun _ _ hf => hf.elim

/-! ## The largest response -/

/-- A platform whose signatures have both numbers at their full length with the top bit set. -/
def fullPlatform : Platform :=
  { simPlatform with
    prims := { simPrimitives with eccSign := fun _ _ _ => (some ⟨List.replicate 64 0x80, rfl⟩, 0) } }

/-- Every signature of this platform has 72 bytes. -/
theorem attestationSignature_full {data : List UInt8} {hash : Bytes 32} :
    Ends (attestationSignature fullPlatform data hash) w
      (fun sigder _ => w.attestationKey.isSome = true → sigder.length = 72) fun _ _ => False := by
  unfold attestationSignature
  rw [ends_bind, ends_get]
  cases w.attestationKey with
  | none =>
    intro hkey
    exact absurd hkey (by simp)
  | some kn =>
    obtain ⟨keyEnc, nonce⟩ := kn
    dsimp only
    unfold ctapSignData
    rw [if_neg (by simp)]
    show _ → (ctapEncodeDerSig ⟨List.replicate 64 0x80, rfl⟩).length = 72
    intro _
    decide +kernel

/-- A request for ES256 with both extensions. -/
def fullRequest : List UInt8 :=
  encMap [([1], encBytes (List.replicate 32 7)), ([2], encMap [(encString "id", encString "a")]),
    ([3], encMap [(encString "id", encBytes [1])]),
    ([4], [0x81] ++ encMap [(encString "alg", [0x26]), (encString "type", encString "public-key")]),
    ([6], encMap [(encString "credProtect", [1]), (encString "hmac-secret", [0xf5])])]

/-- A device with an attestation key and a certificate. -/
def attestedWorld (cert : List UInt8) : World :=
  { simNew with
    attestationKey := some (Bytes.zero 32, Bytes.zero 16)
    attestationCert := some cert }

/-- Without a PIN the checks of a complete request succeed. -/
theorem makeCredentialChecks_of_noPin {request : List UInt8} {MC : MakeCredential}
    (hparse : parseMakeCredential request = .ok MC) (hempty : MC.pinUvAuthParam.empty = false)
    (hparams : MC.clientDataHashParsed ∧ MC.rpParsed ∧ MC.userParsed ∧ MC.pubKeyCredParamsParsed)
    (hup : MC.options.up ≠ .no) (hpin : clientPinIsSet w = false) :
    makeCredentialChecks P request w = .ok (MC, (ctapDeriveRpIdInfo P.prims w.keys MC.rp.bytes).1,
      (ctapDeriveRpIdInfo P.prims w.keys MC.rp.bytes).2) w := by
  unfold makeCredentialChecks
  rw [hparse]
  show (onlyIf _ selectByTouch >>= _) w = _
  unfold onlyIf
  rw [if_neg (by simp [hempty])]
  show (failIf _ _ >>= _) w = _
  rw [failIf_bind_of_not (not_not_intro hparams)]
  show (verifyMakeCredentialAuth P MC >>= _) w = _
  have hverify : verifyMakeCredentialAuth P MC w = .ok () w := by
    unfold verifyMakeCredentialAuth
    rw [get_bind, if_neg (by simp [hpin])]
    rfl
  rw [bind_of_ok hverify, failIf_bind_of_not hup, get_bind]
  dsimp only [ctapDeriveRpIdInfo]
  rw [get_bind, get_bind, failIf_bind_of_not (by simp [hpin])]
  rfl

/-- The encoder runs out of room for a certificate of more than 879 bytes. -/
theorem encoderOverflows_of_long {cert : List UInt8} (hlow : 879 < cert.length) (hhigh : cert.length ≤ 1024) :
    EncoderOverflows fullPlatform fullRequest (attestedWorld cert) := by
  obtain ⟨MC, hparse, htest⟩ := parse_of_test (x := parseMakeCredential fullRequest) (p := fun MC => decide
    (MC.pinUvAuthParam.empty = false ∧
      (MC.clientDataHashParsed ∧ MC.rpParsed ∧ MC.userParsed ∧ MC.pubKeyCredParamsParsed) ∧
      MC.options.up ≠ .no ∧ MC.excludeList = none ∧ MC.credInfo.rk = false ∧ MC.authDataSize = 216))
    (by decide +kernel)
  obtain ⟨hempty, hparams, hup, hlist, hrk, hsize⟩ := of_decide_eq_true htest
  have hchecks := makeCredentialChecks_of_noPin (P := fullPlatform) (w := attestedWorld cert) hparse hempty
    hparams hup rfl
  have hMC := parseMakeCredential_ok hparse
  have hnone (h : Bytes 32) (l : Bytes 16) :
      checkExcludeList fullPlatform MC h l (attestedWorld cert) = .ok () (attestedWorld cert) := by
    unfold checkExcludeList
    rw [hlist]
    rfl
  have hread : attestationReadCert (attestedWorld cert) = some cert := attestationReadCert_eq rfl hhigh
  have htouched : (attestedWorld cert).AlwaysTouched := fun _ => rfl
  have hends := makeCredentialResponse_packed (P := fullPlatform) (w := attestedWorld cert)
    (h := (ctapDeriveRpIdInfo fullPlatform.prims (attestedWorld cert).keys MC.rp.bytes).1)
    (l := (ctapDeriveRpIdInfo fullPlatform.prims (attestedWorld cert).keys MC.rp.bytes).2) hMC hparams.2.2.2 rfl
    hread
  cases hrun : makeCredentialResponse fullPlatform MC
    (ctapDeriveRpIdInfo fullPlatform.prims (attestedWorld cert).keys MC.rp.bytes).1
    (ctapDeriveRpIdInfo fullPlatform.prims (attestedWorld cert).keys MC.rp.bytes).2 (attestedWorld cert) with
  | ok out w₃ =>
    obtain ⟨data, hash, sigder, w₁, w₂, hsig, hfixed, hfit⟩ := hends.ok hrun
    have hkey : w₁.attestationKey.isSome = true := by
      rw [(attestation_of_fixed hfixed).1]
      rfl
    rw [attestationSignature_full.ok hsig hkey, hsize] at hfit
    exact absurd hfit (Nat.not_le.mpr (packedSize_max hlow hhigh))
  | error err w₃ =>
    rcases hends.error hrun with ⟨-, ⟨-, hno⟩ | ⟨-, hyes⟩⟩ | ⟨data, hash, w₁, w₂, hsig⟩ | ⟨rfl, -⟩
    · exact absurd htouched hno
    · exact absurd hyes (by simp [hrk])
    · exact (attestationSignature_full.error hsig).elim
    · exact ⟨MC, _, _, _, _, w₃, hchecks, hnone _ _, hrun⟩

/-! ## Certificates that fit every response -/

/-- With this certificate on the device, no encoder call of authenticatorMakeCredential overflows, and no call
of `u2f_response_writeback` ends the program; a signer that always signs leaves it no other way to end. -/
structure ResponsesFit (cert : List UInt8) : Prop where
  makeCredential : ∀ P request w, w.attestationCert = some cert → ¬ EncoderOverflows P request w
  u2f : ∀ P b w w', P.Signs → w.attestationCert = some cert → u2fRequest P b w ≠ .error (.halt .exit) w'

/-- The certificates that `attestation_write_cert` accepts and that fit every response. -/
theorem responsesFit_iff {cert : List UInt8} (hwritten : 1 ≤ cert.length ∧ cert.length ≤ attestationMaxCertSize) :
    ResponsesFit cert ↔ cert.length ≤ 879 := by
  constructor
  · intro hfit
    by_contra hlong
    exact hfit.makeCredential _ _ (attestedWorld cert) rfl
      (encoderOverflows_of_long (Nat.not_le.mp hlong) hwritten.2)
  · intro hlen
    constructor
    · intro P request w hcert
      exact not_encoderOverflows hcert hlen
    · intro P b w w' hP hcert herr
      exact (u2fRequest_ends hP hcert (hlen.trans (by decide))).error herr

theorem responsesFit_iff_one : (1 ≤ [0x30].length ∧ [0x30].length ≤ attestationMaxCertSize) ∧
    (ResponsesFit [0x30] ↔ [0x30].length ≤ 879) := ⟨by decide, responsesFit_iff (by decide)⟩

/-- A certificate of 1024 bytes is accepted and does not fit. -/
theorem not_responsesFit_largest : 1 ≤ (List.replicate 1024 (0x30 : UInt8)).length ∧
    (List.replicate 1024 (0x30 : UInt8)).length ≤ attestationMaxCertSize ∧
    ¬ ResponsesFit (List.replicate 1024 0x30) := by
  have hone : 1 ≤ (List.replicate 1024 (0x30 : UInt8)).length := by rw [List.length_replicate]; decide
  have hlong : 879 < (List.replicate 1024 (0x30 : UInt8)).length := by rw [List.length_replicate]; decide
  have hmax : (List.replicate 1024 (0x30 : UInt8)).length ≤ attestationMaxCertSize := by
    rw [List.length_replicate]; decide
  exact ⟨hone, hmax, fun hfit => hfit.makeCredential _ _ (attestedWorld _) rfl (encoderOverflows_of_long hlong hmax)⟩

end TkeyFido2
