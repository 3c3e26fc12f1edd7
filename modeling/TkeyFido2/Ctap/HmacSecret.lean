import TkeyFido2.Ctap.NextAssertion
import TkeyFido2.Ctap.Filter
import TkeyFido2.Ctap.ResponseSize

/-!
# hmac-secret

The record of the extension points to the credential whose ID the output is computed from: the first
entry of the array in `getAssertionState`.  `save_credential_list` shifts the array, and the pointer then
points to the second credential, whichever authenticatorGetNextAssertion hands out.
-/

namespace TkeyFido2

open Cbor Prog

/-! ## Maps of one size -/

namespace Cbor.Encoder

variable {e e₁ e' : Encoder}

/-- Two encoders with the same room and the same number of items left. -/
def Alike (e e' : Encoder) : Prop := e'.room = e.room ∧ e'.remaining = e.remaining

theorem Alike.append {d d' : List UInt8} (ha : e.Alike e') (hd : d'.length = d.length)
    (h : e.append d = .ok e₁) : ∃ e₁', e'.append d' = .ok e₁' ∧ e₁.Alike e₁' := by
  unfold Encoder.append at h ⊢
  rw [ha.1, hd]
  split at h
  · cases h
  · rename_i hroom
    obtain rfl := Except.ok.inj h
    exact ⟨_, if_neg hroom, rfl, ha.2⟩

theorem Alike.number {v k : Nat} (ha : e.Alike e') (h : e.number v k = .ok e₁) :
    ∃ e₁', e'.number v k = .ok e₁' ∧ e₁.Alike e₁' := by
  have ha' : Alike { e with remaining := e.remaining - 1 } { e' with remaining := e'.remaining - 1 } :=
    ⟨ha.1, by simp [ha.2]⟩
  exact ha'.append rfl h

theorem Alike.string {s s' : List UInt8} {k : Nat} (ha : e.Alike e') (hs : s'.length = s.length)
    (h : e.string s k = .ok e₁) : ∃ e₁', e'.string s' k = .ok e₁' ∧ e₁.Alike e₁' := by
  unfold Encoder.string at h ⊢
  obtain ⟨e₂, h₂, h⟩ := except_bind_eq_ok.mp h
  obtain ⟨e₂', h₂', ha₂⟩ := ha.number h₂
  obtain ⟨e₁', h₁', ha₁⟩ := ha₂.append hs h
  exact ⟨e₁', except_bind_eq_ok.mpr ⟨e₂', hs ▸ h₂', h₁'⟩, ha₁⟩

theorem Alike.int {v : Int} (ha : e.Alike e') (h : e.int v = .ok e₁) :
    ∃ e₁', e'.int v = .ok e₁' ∧ e₁.Alike e₁' := by
  unfold Encoder.int at h ⊢
  split at h
  · rename_i hv
    rw [if_pos hv]
    exact ha.number h
  · rename_i hv
    rw [if_neg hv]
    exact ha.number h

theorem Alike.close {outer : Encoder} (ha : e.Alike e') (h : outer.close e = .ok e₁) :
    ∃ e₁', outer.close e' = .ok e₁' := by
  unfold Encoder.close at h ⊢
  rw [ha.2]
  split at h
  · cases h
  · rename_i hr
    exact ⟨_, if_neg hr⟩

end Cbor.Encoder

open Encoder

/-- Whether the map of the extension outputs fits depends on the size of the hmac-secret output. -/
theorem encodeExtensions_of_length {o o' : List UInt8} (hlen : o'.length = o.length) {level : Option UInt8}
    {size : Nat} {bytes : List UInt8} (h : encodeExtensions (some o) false level size = .ok bytes) :
    ∃ bytes', encodeExtensions (some o') false level size = .ok bytes' := by
  unfold encodeExtensions at h ⊢
  obtain ⟨map, hmap, h⟩ := except_bind_eq_ok.mp h
  obtain ⟨mapₜ, ht, h⟩ := except_bind_eq_ok.mp h
  obtain ⟨map₁, h₁, h⟩ := except_bind_eq_ok.mp h
  obtain ⟨map₁', h₁', ha₁⟩ := Alike.string ⟨rfl, rfl⟩ hlen h₁
  have hclose {m m' : Encoder} (ha : m.Alike m')
      (h : ((Encoder.init size).close m >>= fun e => pure e.out) = .ok bytes) :
      ∃ bytes', ((Encoder.init size).close m' >>= fun e => pure e.out) = Except.ok bytes' := by
    obtain ⟨e, he, -⟩ := except_bind_eq_ok.mp h
    obtain ⟨e', he'⟩ := ha.close he
    exact ⟨e'.out, except_bind_eq_ok.mpr ⟨e', he', rfl⟩⟩
  have hhead {k : Encoder → EncM (List UInt8)} {bytes' : List UInt8} (hk : k map₁' = .ok bytes') :
      ((Encoder.init size).createMap (1 + false.toNat + level.isSome.toNat) >>= fun map =>
        map.textString (ascii "hmac-secret") >>= fun map => map.byteString o' >>= k) = .ok bytes' :=
    except_bind_eq_ok.mpr ⟨map, hmap, except_bind_eq_ok.mpr ⟨mapₜ, ht, except_bind_eq_ok.mpr ⟨map₁', h₁', hk⟩⟩⟩
  cases level with
  | none =>
    obtain ⟨bytes', h'⟩ := hclose ha₁ h
    exact ⟨bytes', hhead h'⟩
  | some level =>
    obtain ⟨mapₚ, hp, h⟩ := except_bind_eq_ok.mp h
    obtain ⟨map₂, h₂, h⟩ := except_bind_eq_ok.mp h
    obtain ⟨mapₚ', hp', hap⟩ := ha₁.string rfl hp
    obtain ⟨map₂', h₂', ha₂⟩ := hap.int h₂
    obtain ⟨bytes', h'⟩ := hclose ha₂ h
    exact ⟨bytes', hhead (except_bind_eq_ok.mpr ⟨mapₚ', hp', except_bind_eq_ok.mpr ⟨map₂', h₂', h'⟩⟩)⟩

theorem length_encodeExtensions_le {output : Option (List UInt8)} {requested : Bool} {level : Option UInt8}
    {size : Nat} {bytes : List UInt8} (h : encodeExtensions output requested level size = .ok bytes) :
    bytes.length ≤ size := by
  have hcap {e : Encoder} (he : e.capacity = size) : e.out.length ≤ size := he ▸ e.length_out_le
  have hinit : (Encoder.init size).capacity = size := by simp [Encoder.capacity, Encoder.init]
  unfold encodeExtensions at h
  cases output <;> cases level <;> cases requested <;>
    simp only [except_bind_eq_ok, except_pure_eq_ok, if_true, Bool.false_eq_true, if_false] at h <;> grind

/-! ## The output -/

variable {P : Platform} {w w' : World} {ext : Extensions} {id : CredentialId}

/-- The shared secret does not depend on the random numbers that `uECC_shared_secret` draws. -/
def Primitives.SharedSecretFixed (C : Primitives) : Prop :=
  ∀ pub priv f g, (C.eccSharedSecret pub priv f).1 = (C.eccSharedSecret pub priv g).1

/-- The salts of a request verify under the secret shared with the key of protocol 1. -/
def World.SaltVerifies (P : Platform) (w : World) (ext : Extensions) : Prop :=
  ∃ point, (∀ f, (P.prims.eccSharedSecret ext.keyAgreement.pubkey (w.token .p1).privKey f).1 = some point) ∧
    clientPinVerify P.prims (kdf P.prims point 1).1 (ext.saltEnc.toList.take ext.saltLen.toNat) ext.saltAuth 1
      = true

theorem ecdh_ok {pub : Bytes 64} {proto : UInt8} {secret : Bytes 32 × Bytes 32}
    (h : ecdh P pub proto w = .ok secret w') :
    ∃ f point, (P.prims.eccSharedSecret pub (w.token (slotOf proto)).privKey f).1 = some point ∧
      secret = kdf P.prims point proto := by
  unfold ecdh at h
  rw [get_bind, bind_eq_ok] at h
  obtain ⟨point, w₁, hdraw, h⟩ := h
  have hpoint := (EStateM.Result.ok.inj hdraw).1
  cases point with
  | some point => exact ⟨_, point, hpoint, (pure_eq_ok.mp h).1⟩
  | none => exact absurd h (by simp)

theorem ecdh_of_point {pub : Bytes 64} {proto : UInt8} {point : Bytes 32}
    (h : ∀ f, (P.prims.eccSharedSecret pub (w.token (slotOf proto)).privKey f).1 = some point) :
    ∃ w', ecdh P pub proto w = .ok (kdf P.prims point proto) w' := by
  unfold ecdh
  rw [get_bind, bind_of_ok (m := drawing _) rfl, h]
  exact ⟨_, rfl⟩

theorem hmacSecretOutput_ok (hfix : P.prims.SharedSecretFixed) {out : List UInt8}
    (h : hmacSecretOutput P ext id w = .ok out w') :
    w.SaltVerifies P ext ∧ out.length = ext.saltLen.toNat ∧
      w'.hmacOutputs = w.hmacOutputs ++ [.hmacOutput id w.ga.userVerified out] := by
  unfold hmacSecretOutput at h
  rw [bind_eq_ok] at h
  obtain ⟨⟨secret, macKey⟩, w₁, hecdh, h⟩ := h
  have hev : w₁.hmacOutputs = w.hmacOutputs := (touches_ecdh .hmacOutputs (by decide)).ok hecdh
  have hga : w₁.ga = w.ga := (touches_ecdh .ga (by decide)).ok hecdh
  obtain ⟨f, point, hpoint, hsecret⟩ := ecdh_ok hecdh
  obtain ⟨rfl, -⟩ := Prod.mk.inj hsecret
  obtain ⟨hverify, h⟩ := failIf_bind_eq_ok.mp h
  rw [get_bind, bind_eq_ok] at h
  obtain ⟨⟨⟩, w₂, hemit, h⟩ := h
  obtain ⟨rfl, rfl⟩ := pure_eq_ok.mp h
  refine ⟨⟨point, fun g => (hfix _ _ g f).trans hpoint, not_not.mp hverify⟩, List.Vector.toList_length _, ?_⟩
  rw [emit_eq_ok.mp hemit, ← hev, ← hga]
  simp [World.hmacOutputs, Event.isHmacOutput]

theorem World.SaltVerifies.output (h : w.SaltVerifies P ext) (id : CredentialId) :
    ∃ out w', hmacSecretOutput P ext id w = .ok out w' := by
  obtain ⟨point, hpoint, hverify⟩ := h
  obtain ⟨w₁, hecdh⟩ := @ecdh_of_point _ w _ 1 _ hpoint
  unfold hmacSecretOutput
  rw [bind_of_ok hecdh]
  dsimp only
  rw [failIf_bind_of_not (not_not.mpr hverify)]
  exact ⟨_, _, rfl⟩

/-- The level of credProtect in the extension outputs. -/
def Extensions.levelOutput (ext : Extensions) : Option UInt8 :=
  if 1 ≤ ext.credProtect ∧ ext.credProtect ≤ 3 then some ext.credProtect else none

/-- The extension outputs of a request with hmac-secret. -/
theorem ctapExtensionsEncodeOutput_eq (hparsed : ext.hmacSecretPresent = .parsed) (size : Nat) :
    ctapExtensionsEncodeOutput P ext id size w = (hmacSecretOutput P ext id >>= fun out =>
      encode (encodeExtensions (some out) false ext.levelOutput size)) w := by
  have hrequested : decide (ext.hmacSecretPresent = .requested) = false := by rw [hparsed]; rfl
  unfold ctapExtensionsEncodeOutput hmacSecretOutput? Extensions.levelOutput
  rw [if_pos hparsed, hrequested]
  simp

/-- hmac-secret outputs can be computed for every credential, and they fit. -/
structure World.SecretReady (P : Platform) (w : World) (ext : Extensions) : Prop where
  parsed : ext.hmacSecretPresent = .parsed
  verifies : w.SaltVerifies P ext
  fits : ∀ out : List UInt8, out.length = ext.saltLen.toNat →
    ∃ bytes, encodeExtensions (some out) false ext.levelOutput 80 = .ok bytes

theorem World.SecretReady.congr (h : w.SecretReady P ext) (ht : w'.token = w.token) : w'.SecretReady P ext := by
  obtain ⟨point, hpoint, hverify⟩ := h.verifies
  exact ⟨h.parsed, ⟨point, fun f => by rw [ht]; exact hpoint f, hverify⟩, h.fits⟩

/-- `bytes` are the extension outputs, with an hmac-secret output for a credential. -/
structure OutputFor (ext : Extensions) (id : CredentialId) (w w' : World) (bytes : List UInt8) : Prop where
  output : ∃ out, w'.hmacOutputs = w.hmacOutputs ++ [.hmacOutput id w.ga.userVerified out] ∧
    encodeExtensions (some out) false ext.levelOutput 80 = .ok bytes

theorem ctapExtensionsEncodeOutput_ok (hfix : P.prims.SharedSecretFixed)
    (hparsed : ext.hmacSecretPresent = .parsed) {bytes : List UInt8}
    (h : ctapExtensionsEncodeOutput P ext id 80 w = .ok bytes w') :
    w.SecretReady P ext ∧ OutputFor ext id w w' bytes := by
  rw [ctapExtensionsEncodeOutput_eq hparsed, bind_eq_ok] at h
  obtain ⟨out, w₁, hout, h⟩ := h
  obtain ⟨hsalt, hlen, hev⟩ := hmacSecretOutput_ok hfix hout
  obtain ⟨henc, rfl⟩ := ctapCheck_eq_ok.mp h
  have henc' : encodeExtensions (some out) false ext.levelOutput 80 = .ok bytes := encCheck_eq_ok.mp henc
  exact ⟨⟨hparsed, hsalt, fun o ho => encodeExtensions_of_length (ho.trans hlen.symm) henc'⟩,
    ⟨out, hev, henc'⟩⟩

theorem World.SecretReady.encodes (hfix : P.prims.SharedSecretFixed) (h : w.SecretReady P ext)
    (id : CredentialId) : ∃ bytes w', ctapExtensionsEncodeOutput P ext id 80 w = .ok bytes w' := by
  obtain ⟨out, w₁, hout⟩ := h.verifies.output id
  obtain ⟨-, hlen, -⟩ := hmacSecretOutput_ok hfix hout
  obtain ⟨bytes, henc⟩ := h.fits out hlen
  refine ⟨bytes, w₁, ?_⟩
  rw [ctapExtensionsEncodeOutput_eq h.parsed, bind_of_ok hout, henc]
  rfl

theorem OutputFor.length_le {bytes : List UInt8} (h : OutputFor ext id w w' bytes) : bytes.length ≤ 80 := by
  obtain ⟨out, -, henc⟩ := h.output
  exact length_encodeExtensions_le henc

/-! ## Responses -/

/-- The extension outputs in authenticator data without attested credential data. -/
def authDataExtensions (authData : List UInt8) : List UInt8 := authData.drop 37

/-- The response signs with the credential `signed` and carries the one hmac-secret output that was
computed, from the credential ID `source` and the user verification `uv`. -/
def World.Carries (w : World) (signed source : CredentialId) (uv : UInt8) : Prop :=
  ∃ cred authData hash out level, w.assertionEvents.getLast? = some (.signed cred authData hash) ∧
    cred.id = signed ∧ w.hmacOutputs = [.hmacOutput source uv out] ∧
    encodeExtensions (some out) false level 80 = .ok (authDataExtensions authData)

theorem World.Carries.unique {signed source signed' source' : CredentialId} {uv uv' : UInt8}
    (h : w.Carries signed source uv) (h' : w.Carries signed' source' uv') :
    signed' = signed ∧ source' = source ∧ uv' = uv := by
  obtain ⟨cred, authData, hash, out, level, hs, rfl, ho, -⟩ := h
  obtain ⟨cred', authData', hash', out', level', hs', rfl, ho', -⟩ := h'
  rw [hs] at hs'
  rw [ho] at ho'
  simp only [Option.some.injEq, Event.signed.injEq, List.cons.injEq, Event.hmacOutput.injEq] at hs' ho'
  exact ⟨by rw [hs'.1], ho'.1.1.symm, ho'.1.2.1.symm⟩

theorem authDataExtensions_bytes (s : GetAssertionState) (size : Nat) :
    authDataExtensions (s.authDataBytes size) = s.extBuf.toList.take size := by
  unfold authDataExtensions GetAssertionState.authDataBytes AuthDataHeader.bytes
  exact List.drop_left' (by simp)

/-- A response that was signed behind an output. -/
theorem OutputFor.carries {bytes : List UInt8} {extended signed : World} {map map' : Encoder}
    {cred : CredentialDescriptor} {hash : Bytes 32} (h : OutputFor ext id w w' bytes)
    (hnone : w.hmacOutputs = []) (hout : extended.hmacOutputs = w'.hmacOutputs)
    (hbuf : extended.ga.extBuf.toList.take bytes.length = bytes)
    (hsign : encodeAssertionResponse P map cred (extended.ga.authDataBytes bytes.length) hash extended
      = .ok map' signed) :
    signed.Carries cred.id id w.ga.userVerified := by
  obtain ⟨out, hev, henc⟩ := h.output
  have hkept : signed.hmacOutputs = extended.hmacOutputs :=
    (touches_encodeAssertionResponse .hmacOutputs (by decide)).ok hsign
  obtain ⟨-, hsigned⟩ := encodeAssertionResponse_ok hsign
  refine ⟨cred, _, hash, out, ext.levelOutput, by rw [hsigned, List.getLast?_concat], rfl, ?_, ?_⟩
  · rw [hkept, hout, hev, hnone, List.nil_append]
  · rw [authDataExtensions_bytes, hbuf, henc]

/-! ## A request and its continuations -/

theorem take_patch_zero {n : Nat} (b : Bytes n) {l : List UInt8} (h : l.length ≤ n) :
    (b.patch 0 l).toList.take l.length = l := by
  have ht := Bytes.take_patch b 0 l (by omega)
  simpa using ht

/-- The extension outputs of authenticatorGetAssertion lie in the buffer. -/
theorem assertionExtensions_output (hfix : P.prims.SharedSecretFixed)
    (hparsed : ext.hmacSecretPresent = .parsed) {size : Nat} (h : assertionExtensions P ext w = .ok size w') :
    w.SecretReady P ext ∧ ∃ bytes w₁, OutputFor ext (w.ga.creds.nth 0).id w w₁ bytes ∧ size = bytes.length ∧
      w'.hmacOutputs = w₁.hmacOutputs ∧ w'.ga.extBuf.toList.take bytes.length = bytes := by
  unfold assertionExtensions at h
  rw [get_bind, bind_eq_ok] at h
  obtain ⟨bytes, w₁, hout, h⟩ := h
  obtain ⟨hready, hfor⟩ := ctapExtensionsEncodeOutput_ok hfix hparsed hout
  rw [bind_eq_ok] at h
  obtain ⟨⟨⟩, w₂, hput, h⟩ := h
  rw [bind_eq_ok] at h
  obtain ⟨⟨⟩, w₃, hflags, h⟩ := h
  obtain ⟨rfl, rfl⟩ := pure_eq_ok.mp h
  obtain rfl := modify_eq_ok.mp hput
  have hbuf : w'.ga.extBuf = w₁.ga.extBuf.patch 0 bytes ∧ w'.hmacOutputs = w₁.hmacOutputs := by
    rcases onlyIf_eq_ok.mp hflags with ⟨-, hf⟩ | ⟨-, rfl⟩
    · obtain rfl := modify_eq_ok.mp hf
      exact ⟨rfl, rfl⟩
    · exact ⟨rfl, rfl⟩
  refine ⟨hready, bytes, w₁, hfor, rfl, hbuf.2, ?_⟩
  rw [hbuf.1, take_patch_zero _ hfor.length_le]

/-- So do those of authenticatorGetNextAssertion, where they can be computed. -/
theorem nextExtensions_output (hfix : P.prims.SharedSecretFixed) (hready : w.SecretReady P w.ga.extensions)
    {size : Nat} (h : nextExtensions P w = .ok size w') :
    ∃ bytes w₁, OutputFor w.ga.extensions (w.ga.creds.nth 0).id w w₁ bytes ∧ size = bytes.length ∧
      w'.hmacOutputs = w₁.hmacOutputs ∧ w'.ga.extBuf.toList.take bytes.length = bytes := by
  obtain ⟨bytes, w₁, hout⟩ := hready.encodes hfix (w.ga.creds.nth 0).id
  obtain ⟨-, hfor⟩ := ctapExtensionsEncodeOutput_ok hfix hready.parsed hout
  have hbuf : ((w₁.ga.extBuf.patch 0 bytes).toList.take bytes.length) = bytes :=
    take_patch_zero _ hfor.length_le
  unfold nextExtensions at h
  rw [get_bind] at h
  rcases tryCatch_eq_ok.mp h with h | ⟨e, w₂, herr, -⟩
  · rw [bind_of_ok hout, bind_eq_ok] at h
    obtain ⟨⟨⟩, w₂, hput, h⟩ := h
    rw [bind_eq_ok] at h
    obtain ⟨⟨⟩, w₃, hflags, h⟩ := h
    obtain ⟨rfl, rfl⟩ := pure_eq_ok.mp h
    obtain rfl := modify_eq_ok.mp hput
    obtain rfl := modify_eq_ok.mp hflags
    exact ⟨bytes, w₁, hfor, rfl, rfl, hbuf⟩
  · rw [bind_of_ok hout] at herr
    cases herr

theorem hideName_ids {c : Prop} [Decidable c] {i : Nat} (h : onlyIf c (hideName i) w = .ok () w') (j : Nat) :
    (w'.ga.creds.nth j).id = (w.ga.creds.nth j).id := by
  obtain ⟨-, hshow, hother, -⟩ := hideName_ok h
  by_cases hj : j = i
  · rw [hj, hshow.id_eq]
  · rw [hother j hj]

theorem saveCredentialList_extensions {hash : Bytes 32} {n : Nat}
    (h : saveCredentialList hash n ext w = .ok () w') (hn : n ≠ 0) : w'.ga.extensions = ext := by
  unfold saveCredentialList at h
  obtain ⟨-, h⟩ := failIf_bind_eq_ok.mp h
  rw [bind_eq_ok] at h
  obtain ⟨⟨⟩, w₁, hset, h⟩ := h
  obtain rfl := modify_eq_ok.mp h
  rcases onlyIf_eq_ok.mp hset with ⟨-, hs⟩ | ⟨hz, -⟩
  · obtain rfl := modify_eq_ok.mp hs
    rfl
  · exact absurd hn hz

/-- The saved request is `GA`, its extension outputs can be computed, and `k` continuations followed. -/
structure Chained (P : Platform) (GA : GetAssertion) (k : Nat) (w : World) : Prop where
  position : w.ga.index.toNat = k
  ready : w.SecretReady P GA.extensions
  saved : w.ga.index < w.ga.count → w.ga.extensions = GA.extensions
  verified : w.ga.userVerified = GA.uvFlag

theorem AssertionRun.chained {request : List UInt8} (A : AssertionRun P request w w')
    (hfix : P.prims.SharedSecretFixed) (hparsed : A.GA.extensions.hmacSecretPresent = .parsed)
    (hnone : w.hmacOutputs = []) :
    Chained P A.GA 0 w' ∧ ∃ id, w'.Carries id id A.GA.uvFlag := by
  obtain ⟨-, hga₃, -⟩ := buildFilteredCredentialList_ok A.list
  obtain ⟨⟨creds, hga₄⟩, -⟩ := hideName_ok A.name
  obtain ⟨head, hga₅, -⟩ := makeAssertionAuthData_ok A.make
  obtain ⟨⟨buf, flags, hga₆⟩, -⟩ := assertionExtensions_ok A.extend
  obtain ⟨hga₇, -⟩ := encodeAssertionResponse_ok A.sign
  have huv₅ : A.made.ga.userVerified = A.GA.uvFlag := by
    rw [hga₅, hga₄, hga₃]
    exact verifyGetAssertionAuth_uvFlag A.verify
  have hnone₅ : A.made.hmacOutputs = [] := by
    calc A.made.hmacOutputs = A.named.hmacOutputs :=
          (touches_makeAssertionAuthData .hmacOutputs (by decide)).ok A.make
      _ = A.listed.hmacOutputs := ((touches_onlyIf touches_hideName) .hmacOutputs (by decide)).ok A.name
      _ = A.verified.hmacOutputs := (touches_buildFilteredCredentialList .hmacOutputs (by decide)).ok A.list
      _ = A.parsed.hmacOutputs := (touches_verifyGetAssertionAuth .hmacOutputs (by decide)).ok A.verify
      _ = w.hmacOutputs := (touches_parseGetAssertionRequest .hmacOutputs (by decide)).ok A.parse
      _ = [] := hnone
  obtain ⟨hready, bytes, w₁, hfor, hsize, hout, hbuf⟩ := assertionExtensions_output hfix hparsed A.extend
  have hsign := A.sign
  rw [hsize] at hsign
  have hcarries := hfor.carries hnone₅ hout hbuf hsign
  have htoken : w'.token = A.made.token := by
    calc w'.token = A.signed.token := (touches_saveCredentialList .token (by decide)).ok A.save
      _ = A.extended.token := (touches_encodeAssertionResponse .token (by decide)).ok A.sign
      _ = A.made.token := (touches_assertionExtensions .token (by decide)).ok A.extend
  obtain ⟨-, hcount, hindex, -, -, -, huv⟩ := saveCredentialList_ok A.save
  refine ⟨⟨by rw [hindex]; rfl, hready.congr htoken, fun hleft => ?_, by rw [huv, hga₇, hga₆]; exact huv₅⟩,
    (A.made.ga.creds.nth 0).id, ?_⟩
  · refine saveCredentialList_extensions A.save fun hz => ?_
    rw [hcount, hz] at hleft
    exact absurd hleft (by simp)
  · obtain ⟨cred, authData, hash, out, level, hs, hid, ho, henc⟩ := hcarries
    have hev : w'.assertionEvents = A.signed.assertionEvents :=
      (touches_saveCredentialList .assertionEvents (by decide)).ok A.save
    have hout' : w'.hmacOutputs = A.signed.hmacOutputs :=
      (touches_saveCredentialList .hmacOutputs (by decide)).ok A.save
    rw [huv₅] at ho
    exact ⟨cred, authData, hash, out, level, by rw [hev, hs], by rw [hid, hga₆], by rw [hout', ho], henc⟩

theorem NextRun.chained {GA : GetAssertion} {k : Nat} (N : NextRun P w w') (hfix : P.prims.SharedSecretFixed)
    (hchain : Chained P GA k w) (hnone : w.hmacOutputs = []) :
    Chained P GA (k + 1) w' ∧ w'.Carries (w.ga.creds.nth k).id (w.ga.creds.nth 0).id GA.uvFlag := by
  have hga₂ : N.counted.ga = { w.ga with index := w.ga.index + 1 } :=
    (touches_ctapAuthDataUpdateCount .ga (by decide)).ok N.update
  have htoken₂ : N.counted.token = w.token := by
    have h := (touches_ctapAuthDataUpdateCount .token (by decide)).ok N.update
    exact h
  have hout₂ : N.counted.hmacOutputs = w.hmacOutputs := by
    have h := (touches_ctapAuthDataUpdateCount .hmacOutputs (by decide)).ok N.update
    exact h
  obtain ⟨⟨creds, hga₅⟩, -⟩ := hideName_ok N.name
  have hids (j : Nat) : (N.named.ga.creds.nth j).id = (w.ga.creds.nth j).id := by
    rw [hideName_ids N.name j]
    show (N.counted.ga.creds.nth j).id = _
    rw [hga₂]
  have htoken₅ : N.named.token = w.token :=
    (((touches_onlyIf touches_hideName) .token (by decide)).ok N.name).trans htoken₂
  have hout₅ : N.named.hmacOutputs = [] :=
    (((touches_onlyIf touches_hideName) .hmacOutputs (by decide)).ok N.name).trans (hout₂.trans hnone)
  have hext₅ : N.named.ga.extensions = GA.extensions := by
    rw [hga₅]
    show N.counted.ga.extensions = _
    rw [hga₂]
    exact hchain.saved N.left
  have huv₅ : N.named.ga.userVerified = GA.uvFlag := by
    rw [hga₅]
    show N.counted.ga.userVerified = _
    rw [hga₂]
    exact hchain.verified
  obtain ⟨⟨⟨buf, flags, hga₆⟩, -⟩, -⟩ := nextExtensions_ok N.extend
  obtain ⟨hga₇, -⟩ := encodeAssertionResponse_ok N.sign
  have hready₅ : N.named.SecretReady P N.named.ga.extensions := by
    rw [hext₅]
    exact hchain.ready.congr htoken₅
  obtain ⟨bytes, w₁, hfor, hsize, hout, hbuf⟩ := nextExtensions_output hfix hready₅ N.extend
  have hsign := N.sign
  rw [hsize] at hsign
  have hcarries := hfor.carries hout₅ hout hbuf hsign
  have htoken : w'.token = w.token := by
    calc w'.token = N.extended.token := (touches_encodeAssertionResponse .token (by decide)).ok N.sign
      _ = N.named.token := (touches_nextExtensions .token (by decide)).ok N.extend
      _ = w.token := htoken₅
  have hleft : w.ga.index.toNat < w.ga.count.toNat := UInt32.lt_iff_toNat_lt.mp N.left
  have hposition : w'.ga.index.toNat = k + 1 := by
    rw [hga₇, hga₆, hga₅]
    show N.counted.ga.index.toNat = _
    rw [hga₂]
    show (w.ga.index + 1).toNat = _
    rw [UInt32.toNat_add, hchain.position]
    have hbound := w.ga.count.toNat_lt
    have hk := hchain.position
    exact Nat.mod_eq_of_lt (show k + 1 < 2 ^ 32 by omega)
  refine ⟨⟨hposition, hchain.ready.congr htoken, fun _ => by rw [hga₇, hga₆]; exact hext₅,
    by rw [hga₇, hga₆]; exact huv₅⟩, ?_⟩
  rw [show N.extended.ga.creds = N.named.ga.creds by rw [hga₆], hids, hids, huv₅, hchain.position] at hcarries
  exact hcarries

/-! ## Runs -/

theorem Chained.with_lastcmd {GA : GetAssertion} {k : Nat} (h : Chained P GA k w) (cmd : UInt8) :
    Chained P GA k { w with ga := { w.ga with lastcmd := cmd } } :=
  ⟨h.position, h.ready.congr rfl, h.saved, h.verified⟩

theorem Served.Valid.chained {g : Served} {GA : GetAssertion} (hv : g.Valid P)
    (hfix : P.prims.SharedSecretFixed) (hc : commandOf g.cmd = .getAssertion) (hok : g.status = .ok)
    (hparse : g.ParsesAssertion GA) (hparsed : GA.extensions.hmacSecretPresent = .parsed) :
    Chained P GA 0 g.after ∧ ∃ id, g.after.Carries id id GA.uvFlag := by
  obtain ⟨w₁, hafter, hd⟩ := hv.run
  rcases hd with ⟨-, hd⟩ | ⟨e, herr, -⟩
  · have hcmd := (dispatch_ok hd).2
    rw [hc] at hcmd
    obtain ⟨A⟩ := ctapGetAssertion_ok hcmd
    obtain ⟨w₂, hparse⟩ := hparse
    obtain ⟨hGA, -⟩ := EStateM.Result.ok.inj (A.parse.symm.trans hparse)
    obtain ⟨hchain, hcarries⟩ := A.chained hfix (hGA ▸ hparsed) rfl
    rw [hGA] at hchain hcarries
    rw [hafter]
    exact ⟨hchain.with_lastcmd _, hcarries⟩
  · rw [hok] at herr
    cases herr

theorem Served.Valid.chained_next {r : Served} {GA : GetAssertion} {k : Nat} (hv : r.Valid P)
    (hfix : P.prims.SharedSecretFixed) (hr : r.Continues) (hchain : Chained P GA k r.before) :
    Chained P GA (k + 1) r.after ∧
      r.after.Carries (r.before.ga.creds.nth k).id (r.before.ga.creds.nth 0).id GA.uvFlag := by
  obtain ⟨w₁, hafter, hd⟩ := hv.run
  rcases hd with ⟨-, hd⟩ | ⟨e, herr, -⟩
  · have hcmd := (dispatch_ok hd).2
    rw [hr.1] at hcmd
    obtain ⟨N⟩ := ctapGetNextAssertion_ok hcmd.2
    have hbefore : Chained P GA k (r.before.withInputs r.after.inputs) :=
      ⟨hchain.position, hchain.ready.congr rfl, hchain.saved, hchain.verified⟩
    obtain ⟨hchain', hcarries⟩ := N.chained hfix hbefore rfl
    rw [hafter]
    exact ⟨hchain'.with_lastcmd _, hcarries⟩
  · rw [hr.2] at herr
    cases herr

section Continued

variable {nexts h : List Entry} {g : Served} {GA : GetAssertion}

theorem Run.chained (hfix : P.prims.SharedSecretFixed) (hr : Run P (nexts ++ .request g :: h) w)
    (hnexts : ∀ e ∈ nexts, ∃ r, e = .request r ∧ r.Continues) (hc : commandOf g.cmd = .getAssertion)
    (hok : g.status = .ok) (hparse : g.ParsesAssertion GA) (hparsed : GA.extensions.hmacSecretPresent = .parsed) :
    Chained P GA nexts.length w := by
  induction nexts generalizing w with
  | nil =>
    obtain ⟨-, hv, rfl⟩ := hr.of_request
    exact (hv.chained hfix hc hok hparse hparsed).1
  | cons e nexts ih =>
    obtain ⟨r, rfl, hcont⟩ := hnexts e (List.mem_cons_self ..)
    obtain ⟨hr', hv, rfl⟩ := hr.of_request
    have hchain := ih hr' fun e he => hnexts e (List.mem_cons_of_mem _ he)
    exact (hv.chained_next hfix hcont hchain).1

/-- Behind an authenticatorGetAssertion with hmac-secret, the response itself carries an output computed
from the credential that it signs with, and so does the continuation number `k` if and only if the
credential saved at `k` is the one saved first. -/
theorem hmacSecret_of_signed_credential (hfix : P.prims.SharedSecretFixed)
    (hr : Run P (nexts ++ .request g :: h) w) (hnexts : ∀ e ∈ nexts, ∃ r, e = .request r ∧ r.Continues)
    (hc : commandOf g.cmd = .getAssertion) (hok : g.status = .ok) (hparse : g.ParsesAssertion GA)
    (hparsed : GA.extensions.hmacSecretPresent = .parsed) :
    (∃ id, g.after.Carries id id GA.uvFlag) ∧
    ∀ later r earlier, nexts = later ++ .request r :: earlier →
      ((∃ id, r.after.Carries id id GA.uvFlag) ↔
        (r.before.ga.creds.nth earlier.length).id = (r.before.ga.creds.nth 0).id) := by
  constructor
  · obtain ⟨-, hv, -⟩ := hr.suffix.of_request
    exact (hv.chained hfix hc hok hparse hparsed).2
  · rintro later r earlier rfl
    rw [List.append_assoc, List.cons_append] at hr
    obtain ⟨hr', hv, -⟩ := hr.suffix.of_request
    obtain ⟨r', hr'', hcont⟩ := hnexts (.request r) (by simp)
    obtain rfl : r = r' := by simpa using hr''
    have hchain := hr'.chained hfix (fun e he => hnexts e (by simp [he])) hc hok hparse hparsed
    have hcarries := (hv.chained_next hfix hcont hchain).2
    constructor
    · rintro ⟨id, hid⟩
      obtain ⟨h₁, h₂, -⟩ := hcarries.unique hid
      exact h₁.symm.trans h₂
    · intro heq
      rw [heq] at hcarries
      exact ⟨_, hcarries⟩

end Continued

/-! ## Three accounts -/

/-- authenticatorGetAssertion with hmac-secret. -/
def secretRequest (rpId : String) : List UInt8 :=
  let salt := List.replicate 32 5
  encMap (getAssertionMembersOf rpId (List.replicate 32 9) ++
    [([4], encMap [(encString "hmac-secret", encMap [([1], simCoseKey), ([2], encBytes salt),
      ([3], simAuth simSecret.1 salt)])])])

/-- Three accounts of one RP, an assertion and its two continuations. -/
def threeAccounts : List Message :=
  [touched 1 (encMap (makeCredentialMembers "a" 1)), touched 1 (encMap (makeCredentialMembers "a" 2)),
    touched 1 (encMap (makeCredentialMembers "a" 3)), touched 2 (secretRequest "a"), touched 8 [], touched 8 []]

/-- Whether a request has a valid hmac-secret extension. -/
def Served.parsesSecret (r : Served) : Bool :=
  match parseGetAssertionRequest r.request (r.before.withInputs r.after.inputs) with
  | .ok GA _ => GA.extensions.hmacSecretPresent = .parsed
  | .error _ _ => false

theorem Served.exists_of_parsesSecret {r : Served} (h : r.parsesSecret = true) :
    ∃ GA, r.ParsesAssertion GA ∧ GA.extensions.hmacSecretPresent = .parsed := by
  unfold Served.parsesSecret at h
  split at h
  · rename_i GA w hparse
    exact ⟨GA, ⟨w, hparse⟩, of_decide_eq_true h⟩
  · cases h

theorem sharedSecretFixed_sim : simPlatform.prims.SharedSecretFixed := fun _ _ _ _ => rfl

/-- The second continuation hands out another credential than the first. -/
theorem threeAccounts_spec :
    ∃ r₂ r₁ g h w, Run simPlatform ([.request r₂, .request r₁] ++ .request g :: h) w ∧ r₂.Continues ∧
      r₁.Continues ∧ commandOf g.cmd = .getAssertion ∧ g.status = .ok ∧ g.parsesSecret = true ∧
      (r₂.before.ga.creds.nth 1).id ≠ (r₂.before.ga.creds.nth 0).id := by
  have heval : (serveAll simPlatform simStart threeAccounts).map (fun x => x.2.map fun r =>
      (r.cmd, r.status, r.parsesSecret, decide ((r.before.ga.creds.nth 1).id = (r.before.ga.creds.nth 0).id)))
      = some [(8, .ok, false, false), (8, .ok, false, false), (2, .ok, true, true), (1, .ok, false, true),
        (1, .ok, false, true), (1, .ok, false, true)] := by
    decide +kernel
  obtain ⟨⟨w, rs⟩, hrs, hmap⟩ := Option.map_eq_some_iff.mp heval
  obtain ⟨r₂, rs₂, rfl, hr₂, hmap⟩ := List.map_eq_cons_iff.mp hmap
  obtain ⟨r₁, rs₁, rfl, hr₁, hmap⟩ := List.map_eq_cons_iff.mp hmap
  obtain ⟨g, rs, rfl, hg, -⟩ := List.map_eq_cons_iff.mp hmap
  simp only [Prod.mk.injEq] at hr₂ hr₁ hg
  exact ⟨r₂, r₁, g, _, w, serveAll_run run_simStart hrs,
    ⟨commandOf_eq_getNextAssertion.mpr hr₂.1, hr₂.2.1⟩, ⟨commandOf_eq_getNextAssertion.mpr hr₁.1, hr₁.2.1⟩,
    commandOf_eq_getAssertion.mpr hg.1, hg.2.1, hg.2.2.1, of_decide_eq_false hr₂.2.2.2⟩

/-- The assertion and the first continuation carry outputs of their own credentials. -/
theorem hmacSecret_of_signed_credential_first_two :
    ∃ nexts g h w GA, Run simPlatform (nexts ++ .request g :: h) w ∧ commandOf g.cmd = .getAssertion ∧
      g.status = .ok ∧ g.ParsesAssertion GA ∧ GA.extensions.hmacSecretPresent = .parsed ∧
      (∃ id, g.after.Carries id id GA.uvFlag) ∧
      ∃ r, .request r ∈ nexts ∧ r.Continues ∧ ∃ id, r.after.Carries id id GA.uvFlag := by
  obtain ⟨r₂, r₁, g, h, w, hr, hr₂, hr₁, hc, hok, hsecret, -⟩ := threeAccounts_spec
  obtain ⟨GA, hparse, hparsed⟩ := Served.exists_of_parsesSecret hsecret
  have hnexts : ∀ e ∈ [Entry.request r₂, .request r₁], ∃ r, e = .request r ∧ r.Continues := by
    simp [hr₂, hr₁]
  obtain ⟨hg, hall⟩ := hmacSecret_of_signed_credential sharedSecretFixed_sim hr hnexts hc hok hparse hparsed
  exact ⟨_, g, h, w, GA, hr, hc, hok, hparse, hparsed, hg, r₁, by simp, hr₁,
    (hall [.request r₂] r₁ [] rfl).mpr rfl⟩

/-- The second continuation carries an output of the credential that the first one handed out. -/
theorem hmacSecret_of_other_credential :
    ∃ nexts g h w GA, Run simPlatform (nexts ++ .request g :: h) w ∧
      (∀ e ∈ nexts, ∃ r, e = .request r ∧ r.Continues) ∧ commandOf g.cmd = .getAssertion ∧ g.status = .ok ∧
      g.ParsesAssertion GA ∧ GA.extensions.hmacSecretPresent = .parsed ∧
      ∃ r, .request r ∈ nexts ∧ ¬ ∃ id, r.after.Carries id id GA.uvFlag := by
  obtain ⟨r₂, r₁, g, h, w, hr, hr₂, hr₁, hc, hok, hsecret, hne⟩ := threeAccounts_spec
  obtain ⟨GA, hparse, hparsed⟩ := Served.exists_of_parsesSecret hsecret
  have hfirst : ∀ e ∈ [Entry.request r₁], ∃ r, e = .request r ∧ r.Continues := by simp [hr₁]
  obtain ⟨hr', hv, -⟩ := hr.of_request
  have hchain := @Run.chained _ _ [.request r₁] h g GA sharedSecretFixed_sim hr' hfirst hc hok hparse hparsed
  have hcarries := (hv.chained_next sharedSecretFixed_sim hr₂ hchain).2
  refine ⟨_, g, h, w, GA, hr, by simp [hr₂, hr₁], hc, hok, hparse, hparsed, r₂, by simp, ?_⟩
  rintro ⟨id, hid⟩
  obtain ⟨h₁, h₂, -⟩ := hcarries.unique hid
  exact hne (h₁.symm.trans h₂)

end TkeyFido2
