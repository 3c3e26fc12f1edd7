import TkeyFido2.Ctap.Start
import TkeyFido2.Lib.TwoRuns

/-!
# What no answer shows

Three things in memory survive a reset of the authenticator that a start does not leave there, and no command
tells the difference: the last command, where it was not an assertion; an enumeration that is not valid; and the
public key of a key agreement, where it is to be computed again.  The two runs of a command on states that
differ in these only end with the same answer, in states that differ in these only.
-/

namespace TkeyFido2

open Cbor Prog

/-- The curve library computes a public key. -/
def HasPublicKey (P : Platform) (key : Bytes 32) : Prop := ∀ random, (P.prims.eccPublicKey key random).1 ≠ none

/-- Every valid scalar that the generator yields has a public key. -/
def Inputs.DrawsKeys (P : Platform) (inputs : Inputs) : Prop :=
  ∀ pos, isValidScalar (streamBytes inputs.rng.byte pos 32) = true → HasPublicKey P (streamBytes inputs.rng.byte pos 32)

namespace World

/-- Another last command, another enumeration and other public keys. -/
def relabel (w : World) (lastcmd : UInt8) (cm : CredMgmtState) (pub : Slot → Bytes 64) : World := { w with
  ga := { w.ga with lastcmd := lastcmd }
  cm := cm
  token := fun s => { w.token s with pubKey := pub s } }

/-- Public keys that are in use are those of `w`, the others can be computed. -/
def KeysMatch (P : Platform) (w : World) (pub : Slot → Bytes 64) : Prop :=
  w.inputs.DrawsKeys P ∧ ∀ s, HasPublicKey P (w.token s).privKey ∧
    ((w.token s).pubKeyValid = true → pub s = (w.token s).pubKey)

/-- What the key agreement of a record consists of. -/
def keyPairs (w : World) (s : Slot) : Bytes 32 × Bytes 64 × Bool :=
  ((w.token s).privKey, (w.token s).pubKey, (w.token s).pubKeyValid)

/-- The two differ in what no answer shows, with enumerations that are in the relation `C`. -/
def Like (P : Platform) (C : CredMgmtState → CredMgmtState → Prop) (w w' : World) : Prop :=
  ∃ lastcmd cm pub, w' = w.relabel lastcmd cm pub ∧ C w.cm cm ∧ w.KeysMatch P pub

end World

/-- Runs on states that differ in what no answer shows end alike. -/
def Oblivious (P : Platform) (C : CredMgmtState → CredMgmtState → Prop) {α : Type} (m : CtapM α) : Prop :=
  Blind (World.Like P C) (World.Like P C) m

/-! ## Rules -/

section Rules

variable {P : Platform} {C : CredMgmtState → CredMgmtState → Prop} {α β : Type}

theorem World.KeysMatch.congr {w w' : World} {pub : Slot → Bytes 64} (h : w.KeysMatch P pub)
    (hinputs : w'.inputs = w.inputs) (hpairs : w'.keyPairs = w.keyPairs) : w'.KeysMatch P pub := by
  refine ⟨by rw [hinputs]; exact h.1, fun s => ?_⟩
  have hs := congrFun hpairs s
  simp only [World.keyPairs, Prod.mk.injEq] at hs
  obtain ⟨hpriv, hpub, hvalid⟩ := hs
  rw [hpriv, hpub, hvalid]
  exact h.2 s

/-- What is read is not among what may differ. -/
theorem oblivious_get {k : World → CtapM β} (hread : ∀ w lastcmd cm pub, k (World.relabel w lastcmd cm pub) = k w)
    (hk : ∀ w, Oblivious P C (k w)) :
    Oblivious P C (get >>= k) := by
  refine blind_get_bind ?_ hk
  rintro w - ⟨lastcmd, cm, pub, rfl, -, -⟩
  exact (hread w lastcmd cm pub).symm

/-- The same enumeration may be read. -/
theorem oblivious_get_cm {k : World → CtapM β} (hread : ∀ w lastcmd pub, k (World.relabel w lastcmd w.cm pub) = k w)
    (hk : ∀ w, Oblivious P Eq (k w)) :
    Oblivious P Eq (get >>= k) := by
  refine blind_get_bind ?_ hk
  rintro w - ⟨lastcmd, cm, pub, rfl, rfl, -⟩
  exact (hread w lastcmd pub).symm

theorem oblivious_modify {f : World → World}
    (hf : ∀ w lastcmd cm pub, f (World.relabel w lastcmd cm pub) = (f w).relabel lastcmd cm pub)
    (hsame : ∀ w, (f w).cm = w.cm ∧ (f w).inputs = w.inputs ∧ (f w).keyPairs = w.keyPairs) :
    Oblivious P C (modify f) := by
  refine blind_modify ?_
  rintro w - ⟨lastcmd, cm, pub, rfl, hcm, hkeys⟩
  obtain ⟨hc, hinputs, hpairs⟩ := hsame w
  exact ⟨lastcmd, cm, pub, hf w lastcmd cm pub, by rwa [hc], hkeys.congr hinputs hpairs⟩

theorem oblivious_modifyGet {f : World → α × World}
    (hf : ∀ w lastcmd cm pub, f (World.relabel w lastcmd cm pub) = ((f w).1, (f w).2.relabel lastcmd cm pub))
    (hsame : ∀ w, (f w).2.cm = w.cm ∧ (f w).2.inputs = w.inputs ∧ (f w).2.keyPairs = w.keyPairs) :
    Oblivious P C (modifyGet f) := by
  refine blind_modifyGet ?_
  rintro w - ⟨lastcmd, cm, pub, rfl, hcm, hkeys⟩
  obtain ⟨hc, hinputs, hpairs⟩ := hsame w
  rw [hf]
  exact ⟨rfl, lastcmd, cm, pub, rfl, by rwa [hc], hkeys.congr hinputs hpairs⟩

theorem oblivious_emit {e : Event} : Oblivious P C (emit e) :=
  oblivious_modify (fun _ _ _ _ => rfl) fun _ => ⟨rfl, rfl, rfl⟩

theorem oblivious_failWith {s : CtapError} : Oblivious P C (failWith s : CtapM α) := blind_throw

theorem oblivious_failIf {c : Prop} [Decidable c] {s : CtapError} : Oblivious P C (failIf c s) :=
  blind_ite blind_throw blind_pure

theorem oblivious_checkStatus {s : CtapStatus} : Oblivious P C (checkStatus s) := by
  cases s with
  | ok => exact blind_pure
  | error e => exact blind_throw

theorem oblivious_ctapCheck {x : Parse α} : Oblivious P C (ctapCheck x : CtapM α) := by
  cases x with
  | ok a => exact blind_pure
  | error e => exact blind_throw

theorem oblivious_encode {x : EncM α} : Oblivious P C (encode x) := oblivious_ctapCheck

theorem oblivious_onlyIf {c : Prop} [Decidable c] {m : CtapM Unit} (h : Oblivious P C m) :
    Oblivious P C (onlyIf c m) := blind_ite h blind_pure

/-- A record is replaced by one with the same keys, or with a new key pair. -/
theorem World.Like.setToken {w w' : World} (h : w.Like P C w') {f : World → PinUvAuthToken} {slot : Slot}
    (hf : ∀ w lastcmd cm pub, f (World.relabel w lastcmd cm pub) = { f w with pubKey := pub slot })
    (hkeys : ∀ w pub, World.KeysMatch P w pub → HasPublicKey P (f w).privKey ∧
      ((f w).pubKeyValid = true → (w.token slot).pubKeyValid = true ∧ (f w).pubKey = (w.token slot).pubKey)) :
    (w.setToken slot (f w)).Like P C (w'.setToken slot (f w')) := by
  obtain ⟨lastcmd, cm, pub, rfl, hcm, hmatch⟩ := h
  obtain ⟨hpub, hvalid⟩ := hkeys w pub hmatch
  refine ⟨lastcmd, cm, pub, ?_, hcm, hmatch.1, fun s => ?_⟩
  · have htoken : ((w.relabel lastcmd cm pub).setToken slot (f (w.relabel lastcmd cm pub))).token
        = ((w.setToken slot (f w)).relabel lastcmd cm pub).token := by
      funext s
      rw [hf]
      by_cases hs : s = slot
      · subst hs
        simp [World.setToken, World.relabel]
      · simp [World.setToken, World.relabel, hs]
    exact congrArg (fun t => ({ w.relabel lastcmd cm pub with token := t } : World)) htoken
  · by_cases hs : s = slot
    · subst hs
      refine ⟨by simpa [World.setToken] using hpub, fun h => ?_⟩
      obtain ⟨h₁, h₂⟩ := hvalid (by simpa [World.setToken] using h)
      simpa [World.setToken, h₂] using (hmatch.2 s).2 h₁
    · simpa [World.setToken, hs] using hmatch.2 s

theorem oblivious_setToken {f : World → PinUvAuthToken} {slot : Slot}
    (hf : ∀ w lastcmd cm pub, f (World.relabel w lastcmd cm pub) = { f w with pubKey := pub slot })
    (hkeys : ∀ w pub, World.KeysMatch P w pub → HasPublicKey P (f w).privKey ∧
      ((f w).pubKeyValid = true → (w.token slot).pubKeyValid = true ∧ (f w).pubKey = (w.token slot).pubKey)) :
    Oblivious P C (modify fun w => w.setToken slot (f w)) :=
  blind_modify fun _ _ h => h.setToken hf hkeys

/-- A change to what the token allows. -/
theorem World.Like.modifyTokenState {w w' : World} (h : w.Like P C w') {f : TokenState → TokenState}
    {slot : Slot} : (w.modifyTokenState slot f).Like P C (w'.modifyTokenState slot f) :=
  h.setToken (f := fun w => { w.token slot with state := f (w.token slot).state }) (fun _ _ _ _ => rfl)
    fun _ _ h => ⟨(h.2 slot).1, fun hv => ⟨hv, rfl⟩⟩

theorem oblivious_modifyTokenState {f : TokenState → TokenState} {slot : Slot} :
    Oblivious P C (modify fun w => w.modifyTokenState slot f) :=
  blind_modify fun _ _ h => h.modifyTokenState

/-- A change to `getAssertionState`. -/
theorem oblivious_modifyGa {f : World → GetAssertionState}
    (hf : ∀ w lastcmd cm pub, f (World.relabel w lastcmd cm pub) = { f w with lastcmd := lastcmd }) :
    Oblivious P C (modify fun w => { w with ga := f w }) :=
  oblivious_modify
    (fun w lastcmd cm pub => congrArg (fun g => ({ w.relabel lastcmd cm pub with ga := g } : World)) (hf w lastcmd cm pub))
    fun _ => ⟨rfl, rfl, rfl⟩

/-- A change to the enumeration. -/
theorem oblivious_modifyCm {f : World → CredMgmtState}
    (hf : ∀ w lastcmd pub, f (World.relabel w lastcmd w.cm pub) = f w) :
    Oblivious P Eq (modify fun w => { w with cm := f w }) := by
  refine blind_modify ?_
  rintro w - ⟨lastcmd, cm, pub, rfl, rfl, hkeys⟩
  exact ⟨lastcmd, f w, pub, congrArg (fun c => ({ w.relabel lastcmd w.cm pub with cm := c } : World)) (hf w lastcmd pub),
    rfl, hkeys⟩

end Rules

/-! ## Device -/

section Device

variable {P : Platform} {C : CredMgmtState → CredMgmtState → Prop}

theorem oblivious_ctapGenerateRng {n : Nat} : Oblivious P C (ctapGenerateRng n) :=
  (oblivious_modifyGet (fun _ _ _ _ => rfl) fun _ => ⟨rfl, rfl, rfl⟩)

theorem oblivious_drawing {α : Type} {f : (Nat → UInt8) → α × Nat} : Oblivious P C (drawing f) :=
  (oblivious_modifyGet (fun _ _ _ _ => rfl) fun _ => ⟨rfl, rfl, rfl⟩)

theorem oblivious_millis : Oblivious P C millis :=
  (oblivious_modifyGet (fun _ _ _ _ => rfl) fun _ => ⟨rfl, rfl, rfl⟩)

theorem oblivious_ctapUserPresenceTest : Oblivious P C ctapUserPresenceTest := by
  unfold ctapUserPresenceTest
  refine oblivious_get (fun _ _ _ _ => rfl) fun w => blind_ite blind_pure ?_
  exact Blind.bind (oblivious_modifyGet (fun _ _ _ _ => rfl) fun _ => ⟨rfl, rfl, rfl⟩) fun b => oblivious_emit.bind fun _ => blind_pure

theorem oblivious_deviceDisableUp {b : Bool} : Oblivious P C (deviceDisableUp b) :=
  (oblivious_modify (fun _ _ _ _ => rfl) fun _ => ⟨rfl, rfl, rfl⟩)

theorem oblivious_ctapAtomicCount {n : UInt32} : Oblivious P C (ctapAtomicCount n) := by
  unfold ctapAtomicCount countAmount
  refine Blind.bind (blind_ite ?_ blind_pure) fun a => Blind.bind ?_ fun c => ?_
  · exact oblivious_ctapGenerateRng.bind fun _ => blind_pure
  · exact (oblivious_modifyGet (fun _ _ _ _ => rfl) fun _ => ⟨rfl, rfl, rfl⟩)
  · exact (oblivious_emit).bind fun _ => blind_pure

theorem oblivious_authenticatorWriteState :
    Oblivious P C (authenticatorWriteState P) := by
  unfold authenticatorWriteState
  refine oblivious_get (fun _ _ _ _ => rfl) fun w => ?_
  dsimp only
  cases stateEnvelope P w.state with
  | error e => exact blind_throw
  | ok f =>
    exact Blind.bind (oblivious_modify (fun _ _ _ _ => rfl) fun _ => ⟨rfl, rfl, rfl⟩) fun _ => oblivious_emit

theorem oblivious_writeRkFile {n : Fin 16} {l : List ResidentKey} {c : RkChange} :
    Oblivious P C (writeRkFile n l c) :=
  Blind.bind (oblivious_modify (fun _ _ _ _ => rfl) fun _ => ⟨rfl, rfl, rfl⟩)
    fun _ => Blind.bind oblivious_emit fun _ => oblivious_emit

theorem oblivious_ctapResetRk : Oblivious P C ctapResetRk :=
  Blind.bind (oblivious_modify (fun _ _ _ _ => rfl) fun _ => ⟨rfl, rfl, rfl⟩) fun _ => oblivious_emit

theorem oblivious_ctapIncrementRkStore : Oblivious P C (ctapIncrementRkStore P) :=
  Blind.bind (oblivious_modify (fun _ _ _ _ => rfl) fun _ => ⟨rfl, rfl, rfl⟩)
    fun _ => oblivious_authenticatorWriteState

theorem oblivious_ctapDecrementRkStore : Oblivious P C (ctapDecrementRkStore P) :=
  Blind.bind (oblivious_modify (fun _ _ _ _ => rfl) fun _ => ⟨rfl, rfl, rfl⟩)
    fun _ => oblivious_authenticatorWriteState

theorem oblivious_ctapOverwriteRk {rk : ResidentKey} :
    Oblivious P C (ctapOverwriteRk P rk) := by
  unfold ctapOverwriteRk
  refine oblivious_get (fun _ _ _ _ => rfl) fun w => ?_
  dsimp only
  cases overwriteFirst rk (w.rkFiles (rkFile rk.id.rpIdLookup)) with
  | some l => exact oblivious_writeRkFile
  | none =>
    exact oblivious_writeRkFile.bind fun _ =>
      oblivious_ctapIncrementRkStore

theorem oblivious_ctapDeleteRk {id : CredentialId} :
    Oblivious P C (ctapDeleteRk P id) := by
  unfold ctapDeleteRk
  refine oblivious_get (fun _ _ _ _ => rfl) fun w => ?_
  cases deleteFirst id (w.rkFiles (rkFile id.rpIdLookup)) with
  | none => exact blind_pure
  | some l =>
    exact oblivious_writeRkFile.bind fun _ =>
      oblivious_ctapDecrementRkStore.bind fun _ => blind_pure

end Device

/-! ## Credentials -/

section Credential

variable {P : Platform} {C : CredMgmtState → CredMgmtState → Prop}

theorem oblivious_cryptoEcc256DerivePublicKey {data : List UInt8} :
    Oblivious P C (cryptoEcc256DerivePublicKey P data) :=
  oblivious_get (fun _ _ _ _ => rfl) fun _ => oblivious_drawing.bind fun _ => blind_pure

theorem oblivious_coseKeyGenerate {e : Encoder} {data : List UInt8} {t : CredType}
    {alg : Option CoseAlg} : Oblivious P C (coseKeyGenerate P e data t alg) := by
  unfold coseKeyGenerate
  refine blind_ite blind_pure ?_
  split
  · exact oblivious_cryptoEcc256DerivePublicKey.bind fun _ => blind_pure
  · exact oblivious_get (fun _ _ _ _ => rfl) fun _ => blind_pure
  · exact blind_pure

theorem oblivious_ctapSignData {key h : Bytes 32} {data : List UInt8} {alg : CoseAlg} :
    Oblivious P C (ctapSignData P key data h alg) := by
  have hemit {alg : CoseAlg} {sig : List UInt8} :
      Oblivious P C (emit (.signature alg key sig)) := oblivious_emit
  unfold ctapSignData
  refine blind_ite (blind_ite blind_pure (hemit.bind fun _ => blind_pure))
    (oblivious_drawing.bind fun sig => ?_)
  cases sig with
  | some sig => exact hemit.bind fun _ => blind_pure
  | none => exact blind_throw

theorem oblivious_ctap2UserPresenceTest :
    Oblivious P C ctap2UserPresenceTest :=
  oblivious_ctapUserPresenceTest.bind fun r => by cases r <;> exact blind_pure

theorem oblivious_requireUserPresence : Oblivious P C requireUserPresence :=
  oblivious_ctap2UserPresenceTest.bind fun _ => oblivious_checkStatus

theorem oblivious_ctapAuthDataUpdateCount : Oblivious P C ctapAuthDataUpdateCount :=
  oblivious_ctapAtomicCount.bind fun _ => blind_ite oblivious_ctapAtomicCount blind_pure

end Credential

/-! ## The PIN -/

section ClientPin

variable {P : Platform} {C : CredMgmtState → CredMgmtState → Prop}

theorem oblivious_lockDevicePermanently :
    Oblivious P C (lockDevicePermanently P) :=
  Blind.bind (oblivious_modify (fun _ _ _ _ => rfl) fun _ => ⟨rfl, rfl, rfl⟩)
    fun _ => oblivious_authenticatorWriteState

theorem oblivious_decrementPinAttempts : Oblivious P C (decrementPinAttempts P) := by
  unfold decrementPinAttempts
  refine Blind.bind (oblivious_modify (fun w lastcmd cm pub => ?_) fun w => ?_) fun _ => oblivious_get (fun _ _ _ _ => rfl) fun w => ?_
  · show (if 0 < w.pinBootAttemptsLeft then _ else _) = (if 0 < w.pinBootAttemptsLeft then _ else _ : World).relabel _ _ _
    split <;> rfl
  · show (if 0 < w.pinBootAttemptsLeft then _ else _ : World).cm = _ ∧ _
    split <;> exact ⟨rfl, rfl, rfl⟩
  · exact blind_ite (Blind.bind (oblivious_modify (fun _ _ _ _ => rfl) fun _ => ⟨rfl, rfl, rfl⟩) fun _ => oblivious_authenticatorWriteState.bind fun _ =>
      oblivious_get (fun _ _ _ _ => rfl) fun _ => blind_ite oblivious_lockDevicePermanently blind_pure) blind_pure

theorem oblivious_resetPinAttempts : Oblivious P C (resetPinAttempts P) :=
  oblivious_get (fun _ _ _ _ => rfl) fun _ => blind_ite
    (Blind.bind (oblivious_modify (fun _ _ _ _ => rfl) fun _ => ⟨rfl, rfl, rfl⟩) fun _ => oblivious_authenticatorWriteState) blind_pure

theorem oblivious_ecdh {pub : Bytes 64} {proto : UInt8} : Oblivious P C (ecdh P pub proto) := by
  unfold ecdh
  refine oblivious_get (fun _ _ _ _ => rfl) fun _ => oblivious_drawing.bind fun r => ?_
  cases r with
  | some point => exact blind_pure
  | none => exact blind_throw

theorem oblivious_encryptPinUvAuthToken {key : Bytes 32} {proto : UInt8} :
    Oblivious P C (encryptPinUvAuthToken P key proto) :=
  oblivious_get (fun _ _ _ _ => rfl) fun _ => blind_ite blind_pure
    (oblivious_ctapGenerateRng.bind fun _ => blind_pure)

theorem oblivious_drawScalar {fuel : Nat} : Oblivious P C (drawScalar fuel) := by
  induction fuel with
  | zero => exact blind_throw
  | succ fuel ih => exact oblivious_ctapGenerateRng.bind fun _ => blind_ite blind_pure ih

theorem drawScalar_hasPublicKey {fuel : Nat} {w w' : World} {key : Bytes 32} (h : drawScalar fuel w = .ok key w')
    (hw : w.inputs.DrawsKeys P) : HasPublicKey P key := by
  induction fuel generalizing w with
  | zero => cases h
  | succ fuel ih =>
    unfold drawScalar at h
    obtain ⟨k, w₁, hk, h⟩ := bind_eq_ok.mp h
    cases hk
    split at h
    · rename_i hvalid
      cases h
      exact hw _ hvalid
    · exact ih h hw

theorem oblivious_regenerateKeyAgreement {slot : Slot} : Oblivious P C (regenerateKeyAgreement slot) := by
  refine oblivious_get (fun _ _ _ _ => rfl) fun _ => ?_
  refine Blind.bind_of (Q := HasPublicKey P) oblivious_drawScalar (fun w _ key w' h hdraw => ?_) fun key hkey => ?_
  · obtain ⟨_, _, _, -, -, hmatch⟩ := h
    exact drawScalar_hasPublicKey hdraw hmatch.1
  · exact oblivious_setToken (fun _ _ _ _ => rfl) fun _ _ _ => ⟨hkey, fun hv => absurd hv Bool.false_ne_true⟩

theorem oblivious_resetPinUvAuthToken {slot : Slot} : Oblivious P C (resetPinUvAuthToken slot) :=
  oblivious_ctapGenerateRng.bind fun _ =>
    oblivious_setToken (fun _ _ _ _ => rfl) fun _ _ h => ⟨(h.2 slot).1, fun hv => ⟨hv, rfl⟩⟩

theorem oblivious_clientPinInitialize : Oblivious P C clientPinInitialize :=
  oblivious_regenerateKeyAgreement.bind fun _ => oblivious_regenerateKeyAgreement.bind fun _ =>
    oblivious_resetPinUvAuthToken.bind fun _ => oblivious_resetPinUvAuthToken

theorem oblivious_beginUsingPinUvAuthToken {b : Bool} {slot : Slot} {perms : UInt8} :
    Oblivious P C (beginUsingPinUvAuthToken b slot perms) :=
  oblivious_millis.bind fun _ => oblivious_modifyTokenState.bind fun _ =>
    oblivious_emit

theorem oblivious_associatePermissionsRpId {rp : List UInt8} {slot : Slot} :
    Oblivious P C (associatePermissionsRpId P rp slot) :=
  blind_ite blind_pure oblivious_modifyTokenState

theorem oblivious_clearInUse {slot : Slot} {f : TokenState → TokenState} : Oblivious P C (clearInUse slot f) := by
  refine blind_modify fun w w' h => ?_
  have huse : (w'.token slot).state = (w.token slot).state := by
    obtain ⟨_, _, _, rfl, -⟩ := h
    rfl
  rw [huse]
  split
  · exact h.modifyTokenState
  · exact h

theorem oblivious_usageTimeObserver {slot : Slot} :
    Oblivious P C (usageTimeObserver slot) := by
  refine oblivious_get (fun _ _ _ _ => rfl) fun _ => blind_ite ?_ oblivious_emit
  refine oblivious_millis.bind fun now =>
    oblivious_emit.bind fun _ => oblivious_get (fun _ _ _ _ => rfl) fun _ => ?_
  refine (oblivious_onlyIf oblivious_modifyTokenState).bind fun _ => ?_
  refine oblivious_get (fun _ _ _ _ => rfl) fun _ => ?_
  refine (oblivious_onlyIf oblivious_clearInUse).bind fun _ => ?_
  refine oblivious_get (fun _ _ _ _ => rfl) fun _ => ?_
  exact blind_ite oblivious_modifyTokenState
    oblivious_modifyTokenState

theorem oblivious_clientPinVerifyAuthEx {param : Bytes 32} {buf : List UInt8} {proto : UInt8} :
    Oblivious P C (clientPinVerifyAuthEx P param buf proto) :=
  oblivious_usageTimeObserver.bind fun _ => oblivious_get (fun _ _ _ _ => rfl) fun _ =>
    oblivious_failIf.bind fun _ => oblivious_get (fun _ _ _ _ => rfl) fun _ => oblivious_failIf.bind fun _ =>
      oblivious_emit

theorem oblivious_verifyAgainstStoredPin {h : Bytes 16} :
    Oblivious P C (verifyAgainstStoredPin P h) :=
  oblivious_get (fun _ _ _ _ => rfl) fun _ => oblivious_emit.bind fun _ => blind_pure

theorem oblivious_pinMismatch {α : Type} {proto : UInt8} :
    Oblivious P C (pinMismatch P proto : CtapM α) :=
  oblivious_regenerateKeyAgreement.bind fun _ =>
    oblivious_decrementPinAttempts.bind fun _ => oblivious_get (fun _ _ _ _ => rfl) fun _ =>
      oblivious_failIf.bind fun _ => oblivious_get (fun _ _ _ _ => rfl) fun _ => oblivious_failIf.bind fun _ =>
        oblivious_failWith

theorem oblivious_storePin {pin : List UInt8} : Oblivious P C (storePin P pin) :=
  oblivious_ctapGenerateRng.bind fun _ =>
    Blind.bind (oblivious_modify (fun _ _ _ _ => rfl) fun _ => ⟨rfl, rfl, rfl⟩)
      fun _ => oblivious_authenticatorWriteState

theorem oblivious_verifyCurrentPin {h k : Bytes 32} {proto : UInt8} :
    Oblivious P C (verifyCurrentPin P h k proto) :=
  oblivious_ctapCheck.bind fun _ => oblivious_verifyAgainstStoredPin.bind fun _ =>
    blind_ite
      (oblivious_resetPinAttempts.bind fun _ =>
        oblivious_resetPinUvAuthToken.bind fun _ =>
          oblivious_resetPinUvAuthToken)
      oblivious_pinMismatch

theorem oblivious_updatePinIfVerified {n : Bytes 80} {len : UInt8} {pub : Bytes 64} {a : Bytes 32}
    {h : Option (Bytes 32)} {proto : UInt8} :
    Oblivious P C (updatePinIfVerified P n len pub a h proto) := by
  refine oblivious_failIf.bind fun _ => oblivious_ecdh.bind fun (_, _) =>
    oblivious_failIf.bind fun _ => oblivious_ctapCheck.bind fun _ => oblivious_failIf.bind fun _ =>
      Blind.bind ?_ fun _ => oblivious_storePin
  cases h with
  | none => exact blind_pure
  | some h => exact oblivious_get (fun _ _ _ _ => rfl) fun _ => oblivious_onlyIf oblivious_verifyCurrentPin

theorem oblivious_addEncPinUvAuthToken {pub : Bytes 64} {h : Bytes 32} {proto perms : UInt8}
    {rp : List UInt8} : Oblivious P C (addEncPinUvAuthToken P pub h proto perms rp) :=
  oblivious_ecdh.bind fun (_, _) => oblivious_ctapCheck.bind fun _ =>
    oblivious_verifyAgainstStoredPin.bind fun _ =>
      blind_ite
        (oblivious_resetPinAttempts.bind fun _ =>
          oblivious_resetPinUvAuthToken.bind fun _ =>
          oblivious_resetPinUvAuthToken.bind fun _ =>
          oblivious_beginUsingPinUvAuthToken.bind fun _ =>
          oblivious_associatePermissionsRpId.bind fun _ =>
          oblivious_get (fun _ _ _ _ => rfl) fun _ => oblivious_emit.bind fun _ =>
            oblivious_encryptPinUvAuthToken)
        oblivious_pinMismatch

theorem oblivious_getPinRetries : Oblivious P C getPinRetries :=
  oblivious_get (fun _ _ _ _ => rfl) fun _ => oblivious_encode.bind fun _ => oblivious_encode.bind fun _ =>
    oblivious_encode.bind fun _ => oblivious_encode.bind fun _ => oblivious_encode.bind fun _ =>
      oblivious_encode.bind fun _ => blind_pure

/-- The record with its public key computed. -/
def World.withPublicKey (P : Platform) (w : World) (slot : Slot) : World :=
  let r := P.prims.eccPublicKey (w.token slot).privKey fun i => w.inputs.rng.byte (w.rngPos + i)
  ({ w with rngPos := w.rngPos + r.2 } : World).setToken slot { w.token slot with
    pubKey := r.1.getD (w.token slot).pubKey
    pubKeyValid := true }

theorem computePublicKey_eq (slot : Slot) (w : World) :
    computePublicKey P slot w = .ok () (w.withPublicKey P slot) := rfl

theorem World.withPublicKey_of {w : World} {slot : Slot} {key : Bytes 64} {n : Nat}
    (h : (P.prims.eccPublicKey (w.token slot).privKey fun i => w.inputs.rng.byte (w.rngPos + i)) = (some key, n)) :
    w.withPublicKey P slot = ({ w with rngPos := w.rngPos + n } : World).setToken slot
      { w.token slot with pubKey := key, pubKeyValid := true } := by
  unfold World.withPublicKey
  rw [h]
  rfl

/-- A public key that is computed is the same in both. -/
theorem World.Like.withPublicKey {w w' : World} (h : w.Like P C w') (slot : Slot) :
    (w.withPublicKey P slot).Like P C (w'.withPublicKey P slot) ∧
      ((w'.withPublicKey P slot).token slot).pubKey = ((w.withPublicKey P slot).token slot).pubKey := by
  obtain ⟨lastcmd, cm, pub, rfl, hcm, hmatch⟩ := h
  have hr : ∃ key n, (P.prims.eccPublicKey (w.token slot).privKey fun i => w.inputs.rng.byte (w.rngPos + i))
      = (some key, n) := by
    obtain ⟨key, hkey⟩ := Option.ne_none_iff_exists'.mp
      ((hmatch.2 slot).1 fun i => w.inputs.rng.byte (w.rngPos + i))
    exact ⟨key, _, Prod.ext hkey rfl⟩
  obtain ⟨key, n, hr⟩ := hr
  rw [World.withPublicKey_of hr, World.withPublicKey_of (w := w.relabel lastcmd cm pub) hr]
  refine ⟨⟨lastcmd, cm, Function.update pub slot key, ?_, hcm, hmatch.1, fun s => ?_⟩, ?_⟩
  · have htoken : Function.update (w.relabel lastcmd cm pub).token slot
          { (w.relabel lastcmd cm pub).token slot with pubKey := key, pubKeyValid := true }
        = fun s => { Function.update w.token slot { w.token slot with pubKey := key, pubKeyValid := true } s with
            pubKey := Function.update pub slot key s } := by
      funext s
      by_cases hs : s = slot
      · subst hs
        simp [World.relabel]
      · simp [World.relabel, hs]
    exact congrArg (fun t => ({ w.relabel lastcmd cm pub with rngPos := w.rngPos + n, token := t } : World)) htoken
  · by_cases hs : s = slot
    · subst hs
      simpa [World.setToken] using (hmatch.2 s).1
    · simpa [World.setToken, hs] using hmatch.2 s
  · simp [World.setToken]

/-- The public key of the record is the same in both as well. -/
def World.LikeWithKey (P : Platform) (C : CredMgmtState → CredMgmtState → Prop) (slot : Slot) (w w' : World) : Prop :=
  w.Like P C w' ∧ (w'.token slot).pubKey = (w.token slot).pubKey

theorem blind_knownKey (slot : Slot) : Blind (World.Like P C) (World.LikeWithKey P C slot) (do
    let w ← get
    onlyIf ((w.token slot).pubKeyValid = false) (computePublicKey P slot) : CtapM Unit) := by
  intro w w' h
  have hvalid : (w'.token slot).pubKeyValid = (w.token slot).pubKeyValid := by
    obtain ⟨_, _, _, rfl, -⟩ := h
    rfl
  rw [get_bind, get_bind, hvalid]
  by_cases hneeded : (w.token slot).pubKeyValid = false
  · rw [onlyIf, if_pos hneeded]
    exact .ok () (h.withPublicKey slot)
  · rw [onlyIf, if_neg hneeded]
    refine .ok () ⟨h, ?_⟩
    obtain ⟨_, _, _, rfl, -, hmatch⟩ := h
    exact (hmatch.2 slot).2 (by simpa using hneeded)

theorem oblivious_getKeyAgreement {proto : UInt8} : Oblivious P C (getKeyAgreement P proto) := by
  refine oblivious_encode.bind fun _ => oblivious_encode.bind fun _ => ?_
  rw [← bind_assoc]
  refine (blind_knownKey (slotOf proto)).then (fun _ _ h => h.1) fun _ => ?_
  refine blind_get_bind (fun w w' h => ?_) fun w => ?_
  · rw [h.2]
  · exact Blind.mono (oblivious_encode.bind fun _ => oblivious_encode.bind fun _ => blind_pure) fun _ _ h => h.1

theorem oblivious_issueToken {CP : ClientPin} {perms : UInt8} {rp : List UInt8} :
    Oblivious P C (issueToken P CP perms rp) :=
  oblivious_encode.bind fun _ => oblivious_encode.bind fun _ => oblivious_addEncPinUvAuthToken.bind fun _ =>
    oblivious_encode.bind fun _ => oblivious_encode.bind fun _ => blind_pure

theorem oblivious_setPin {CP : ClientPin} : Oblivious P C (setPin P CP) :=
  oblivious_failIf.bind fun _ => oblivious_get (fun _ _ _ _ => rfl) fun _ => oblivious_failIf.bind fun _ =>
    oblivious_updatePinIfVerified.bind fun _ => blind_pure

theorem oblivious_changePin {CP : ClientPin} : Oblivious P C (changePin P CP) :=
  oblivious_get (fun _ _ _ _ => rfl) fun _ => oblivious_failIf.bind fun _ => oblivious_failIf.bind fun _ =>
    oblivious_updatePinIfVerified.bind fun _ => blind_pure

theorem oblivious_getPinToken {CP : ClientPin} : Oblivious P C (getPinToken P CP) :=
  oblivious_get (fun _ _ _ _ => rfl) fun _ => oblivious_failIf.bind fun _ => oblivious_failIf.bind fun _ =>
    oblivious_failIf.bind fun _ => oblivious_issueToken

theorem oblivious_getPinUvAuthTokenUsingPinWithPermissions {CP : ClientPin} :
    Oblivious P C (getPinUvAuthTokenUsingPinWithPermissions P CP) :=
  oblivious_get (fun _ _ _ _ => rfl) fun _ => oblivious_failIf.bind fun _ => oblivious_failIf.bind fun _ =>
    oblivious_failIf.bind fun _ => oblivious_failIf.bind fun _ => oblivious_failIf.bind fun _ =>
      oblivious_issueToken

theorem oblivious_ctapClientPin {request : List UInt8} :
    Oblivious P C (ctapClientPin P request) :=
  oblivious_ctapCheck.bind fun _ => oblivious_failIf.bind fun _ => oblivious_failIf.bind fun _ =>
    blind_ite oblivious_getPinRetries <|
    blind_ite oblivious_getKeyAgreement <|
    blind_ite oblivious_setPin <|
    oblivious_get (fun _ _ _ _ => rfl) fun _ => oblivious_failIf.bind fun _ => oblivious_get (fun _ _ _ _ => rfl) fun _ =>
    oblivious_failIf.bind fun _ =>
    blind_ite oblivious_changePin <| blind_ite oblivious_getPinToken <|
    blind_ite oblivious_getPinUvAuthTokenUsingPinWithPermissions oblivious_failWith

end ClientPin

/-! ## Authenticator data -/

section AuthData

variable {P : Platform} {C : CredMgmtState → CredMgmtState → Prop}

theorem oblivious_hmacSecretOutput {ext : Extensions} {id : CredentialId} :
    Oblivious P C (hmacSecretOutput P ext id) :=
  oblivious_ecdh.bind fun (_, _) => oblivious_failIf.bind fun _ => oblivious_get (fun _ _ _ _ => rfl) fun _ =>
    oblivious_emit.bind fun _ => blind_pure

theorem oblivious_ctapExtensionsEncodeOutput {ext : Extensions} {id : CredentialId} {size : Nat} :
    Oblivious P C (ctapExtensionsEncodeOutput P ext id size) :=
  Blind.bind (blind_ite oblivious_hmacSecretOutput.map blind_pure)
    fun _ => blind_ite blind_pure oblivious_encode

theorem oblivious_putHead {buf : AuthBuf} {head : AuthDataHeader} : Oblivious P C (putHead buf head) := by
  cases buf with
  | assertion => exact (oblivious_modifyGa fun _ _ _ _ => rfl)
  | scratch => exact blind_pure

theorem oblivious_makeAuthDataHeader {buf : AuthBuf} {h : Bytes 32} : Oblivious P C (makeAuthDataHeader buf h) :=
  oblivious_get (fun _ _ _ _ => rfl) fun _ => oblivious_putHead.bind fun _ =>
    oblivious_ctapAuthDataUpdateCount.bind fun _ => oblivious_putHead.bind fun _ =>
    oblivious_ctap2UserPresenceTest.bind fun _ => (oblivious_onlyIf oblivious_checkStatus).bind fun _ =>
    oblivious_get (fun _ _ _ _ => rfl) fun _ => oblivious_putHead.bind fun _ => blind_pure

theorem oblivious_storeResidentKey {rp : RpId} {h : Bytes 32} {id : CredentialId} {u : UserEntity} :
    Oblivious P C (storeResidentKey P rp h id u) :=
  oblivious_get (fun _ _ _ _ => rfl) fun _ => oblivious_failIf.bind fun _ =>
    oblivious_ctapGenerateRng.bind fun _ => oblivious_get (fun _ _ _ _ => rfl) fun _ =>
      oblivious_ctapOverwriteRk

theorem oblivious_makeAttestedData {rp : RpId} {h : Bytes 32} {l : Bytes 16} {n : UInt32} {c : CredInfo}
    {e : Extensions} :
    Oblivious P C (makeAttestedData P rp h l n c e) :=
  oblivious_get (fun _ _ _ _ => rfl) fun _ => oblivious_ctapGenerateRng.bind fun _ =>
    (oblivious_onlyIf oblivious_storeResidentKey).bind fun _ =>
      oblivious_coseKeyGenerate.bind fun _ => blind_pure

/-- The authenticator data of an assertion makes no credential. -/
theorem oblivious_ctapMakeAuthData_none {rp : RpId} {h : Bytes 32} {l : Bytes 16} {e : Extensions} :
    Oblivious P C (ctapMakeAuthData P .assertion rp h l none e) :=
  oblivious_makeAuthDataHeader.bind fun (_, _) => blind_pure

theorem oblivious_ctapMakeAuthData_some {rp : RpId} {h : Bytes 32} {l : Bytes 16} {c : CredInfo}
    {e : Extensions} :
    Oblivious P C (ctapMakeAuthData P .scratch rp h l (some c) e) :=
  oblivious_makeAuthDataHeader.bind fun (_, _) =>
    oblivious_makeAttestedData.bind fun _ => blind_pure

end AuthData

/-! ## Assertions -/

section Assertion

variable {P : Platform} {C : CredMgmtState → CredMgmtState → Prop}

theorem oblivious_setCreds {c : Creds} : Oblivious P C (setCreds c) := (oblivious_modifyGa fun _ _ _ _ => rfl)

theorem oblivious_parseDescriptorAt {i : Nat} {arr : CborValue} :
    Oblivious P C (parseDescriptorAt i arr) := by
  unfold parseDescriptorAt
  refine oblivious_get (fun _ _ _ _ => rfl) fun w => ?_
  dsimp only
  cases ctapParsePubkeyCredentialDescriptor arr {} with
  | ok u cred => exact oblivious_setCreds
  | error e cred => exact oblivious_setCreds.bind fun _ => blind_throw

theorem oblivious_allowListItems {n i : Nat} {arr : CborValue} :
    Oblivious P C (allowListItems n i arr) := by
  induction n generalizing i arr with
  | zero => exact blind_pure
  | succ n ih =>
    exact oblivious_failIf.bind fun _ => oblivious_parseDescriptorAt.bind fun _ =>
      oblivious_ctapCheck.bind fun _ => ih

theorem oblivious_parseAllowListCredentials {it : CborValue} :
    Oblivious P C (parseAllowListCredentials it) :=
  oblivious_failIf.bind fun _ => oblivious_ctapCheck.bind fun _ => oblivious_ctapCheck.bind fun _ =>
    oblivious_allowListItems

/-- One member of the request. -/
theorem oblivious_getAssertionStep {GA : GetAssertion} {key : Int} {it : CborValue} :
    Oblivious P C (getAssertionStep GA key it) :=
  blind_ite (oblivious_parseAllowListCredentials.bind fun _ => blind_pure) oblivious_ctapCheck

theorem oblivious_getAssertionMembers {n : Nat} {s : CtapStatus} {GA : GetAssertion} {it : CborValue} :
    Oblivious P C (getAssertionMembers n s GA it) := by
  induction n generalizing s GA it with
  | zero => exact blind_pure
  | succ n ih =>
    exact oblivious_ctapCheck.bind fun (_, _) => oblivious_getAssertionStep.bind fun _ =>
      oblivious_checkStatus.bind fun _ => oblivious_ctapCheck.bind fun _ => ih

theorem oblivious_parseGetAssertionRequest {request : List UInt8} :
    Oblivious P C (parseGetAssertionRequest request) :=
  oblivious_ctapCheck.bind fun _ => oblivious_ctapCheck.bind fun (_, _) => oblivious_get (fun _ _ _ _ => rfl) fun _ =>
    oblivious_getAssertionMembers

theorem oblivious_buildFilteredCredentialList {GA : GetAssertion} {h : Bytes 32} {l : Bytes 16} :
    Oblivious P C (buildFilteredCredentialList P GA h l) :=
  oblivious_get (fun _ _ _ _ => rfl) fun _ => oblivious_setCreds.bind fun _ =>
    oblivious_emit.bind fun _ => blind_pure

theorem oblivious_encodeAssertionResponse {map : Encoder} {cred : CredentialDescriptor}
    {a : List UInt8} {h : Bytes 32} :
    Oblivious P C (encodeAssertionResponse P map cred a h) :=
  oblivious_encode.bind fun _ => oblivious_encode.bind fun _ => oblivious_encode.bind fun _ =>
    oblivious_encode.bind fun _ => oblivious_get (fun _ _ _ _ => rfl) fun _ =>
    oblivious_ctapSignData.bind fun _ =>
    oblivious_emit.bind fun _ => oblivious_encode.bind fun _ =>
    oblivious_encode.bind fun _ => blind_ite
      (oblivious_encode.bind fun _ => oblivious_get (fun _ _ _ _ => rfl) fun _ => oblivious_encode) blind_pure

theorem oblivious_saveCredentialList {h : Bytes 32} {n : Nat} {e : Extensions} :
    Oblivious P C (saveCredentialList h n e) :=
  oblivious_failIf.bind fun _ => (oblivious_onlyIf (oblivious_modifyGa fun _ _ _ _ => rfl)).bind fun _ => (oblivious_modifyGa fun _ _ _ _ => rfl)

theorem oblivious_verifyGetAssertionAuth {GA : GetAssertion} {h : Bytes 32} :
    Oblivious P C (verifyGetAssertionAuth P GA h) :=
  blind_ite
    (oblivious_failIf.bind fun _ => oblivious_clientPinVerifyAuthEx.bind fun _ =>
      oblivious_get (fun _ _ _ _ => rfl) fun _ => oblivious_failIf.bind fun _ => oblivious_get (fun _ _ _ _ => rfl) fun _ =>
      oblivious_failIf.bind fun _ => oblivious_get (fun _ _ _ _ => rfl) fun _ => oblivious_failIf.bind fun _ =>
      (oblivious_modifyGa fun _ _ _ _ => rfl))
    (oblivious_modifyGa fun _ _ _ _ => rfl)

theorem oblivious_clearPinFlags {slot : Slot} : Oblivious P C (clearPinFlags slot) :=
  oblivious_clearInUse.bind fun _ => oblivious_clearInUse.bind fun _ => oblivious_clearInUse

theorem oblivious_makeAssertionAuthData {GA : GetAssertion} {h : Bytes 32} {l : Bytes 16} :
    Oblivious P C (makeAssertionAuthData P GA h l) :=
  oblivious_deviceDisableUp.bind fun _ =>
    ((oblivious_ctapMakeAuthData_none.map).tryCatch fun _ =>
      oblivious_deviceDisableUp.bind fun _ => blind_throw).bind fun _ =>
    oblivious_deviceDisableUp.bind fun _ =>
    (oblivious_onlyIf oblivious_clearPinFlags).bind fun _ => oblivious_get (fun _ _ _ _ => rfl) fun _ =>
    (oblivious_modifyGa fun _ _ _ _ => rfl)

theorem oblivious_selectByTouch : Oblivious P C selectByTouch :=
  oblivious_requireUserPresence.bind fun _ => oblivious_get (fun _ _ _ _ => rfl) fun _ => oblivious_failWith

theorem oblivious_hideName {i : Nat} : Oblivious P C (hideName i) :=
  oblivious_get (fun _ _ _ _ => rfl) fun _ => oblivious_setCreds

theorem oblivious_encodeCount {map : Encoder} {n : Nat} : Oblivious P C (encodeCount map n) :=
  blind_ite (oblivious_encode.bind fun _ => oblivious_encode) blind_pure

theorem oblivious_assertionExtensions {e : Extensions} :
    Oblivious P C (assertionExtensions P e) :=
  oblivious_get (fun _ _ _ _ => rfl) fun _ => oblivious_ctapExtensionsEncodeOutput.bind fun _ =>
    (oblivious_modifyGa fun _ _ _ _ => rfl).bind fun _ =>
    (oblivious_onlyIf (oblivious_modifyGa fun _ _ _ _ => rfl)).bind fun _ => blind_pure

theorem oblivious_ctapGetAssertion {request : List UInt8} :
    Oblivious P C (ctapGetAssertion P request) :=
  oblivious_parseGetAssertionRequest.bind fun _ =>
    (oblivious_onlyIf oblivious_selectByTouch).bind fun _ =>
    oblivious_failIf.bind fun _ => oblivious_get (fun _ _ _ _ => rfl) fun _ =>
    oblivious_verifyGetAssertionAuth.bind fun _ =>
    oblivious_buildFilteredCredentialList.bind fun _ =>
    oblivious_failIf.bind fun _ => oblivious_get (fun _ _ _ _ => rfl) fun _ => oblivious_encode.bind fun _ =>
    oblivious_get (fun _ _ _ _ => rfl) fun _ => (oblivious_onlyIf oblivious_hideName).bind fun _ =>
    oblivious_makeAssertionAuthData.bind fun _ =>
    oblivious_assertionExtensions.bind fun _ => oblivious_get (fun _ _ _ _ => rfl) fun _ =>
    oblivious_encodeAssertionResponse.bind fun _ =>
    oblivious_encodeCount.bind fun _ => oblivious_encode.bind fun _ =>
    oblivious_saveCredentialList.bind fun _ => blind_pure

theorem oblivious_getNextCredential : Oblivious P C getNextCredential :=
  oblivious_get (fun _ _ _ _ => rfl) fun _ => blind_ite ((oblivious_modifyGa fun _ _ _ _ => rfl).bind fun _ => blind_pure) blind_pure

theorem oblivious_nextExtensions : Oblivious P C (nextExtensions P) :=
  oblivious_get (fun _ _ _ _ => rfl) fun _ => Blind.tryCatch
    (oblivious_ctapExtensionsEncodeOutput.bind fun _ =>
      (oblivious_modifyGa fun _ _ _ _ => rfl).bind fun _ => (oblivious_modifyGa fun _ _ _ _ => rfl).bind fun _ =>
      blind_pure)
    fun e => by cases e <;> first | exact blind_pure | exact blind_throw

theorem oblivious_ctapGetNextAssertion :
    Oblivious P C (ctapGetNextAssertion P) := by
  refine oblivious_getNextCredential.bind fun i => ?_
  cases i with
  | none => exact oblivious_failWith
  | some i =>
    exact oblivious_ctapAuthDataUpdateCount.bind fun _ =>
      (oblivious_modifyGa fun _ _ _ _ => rfl).bind fun _ => oblivious_get (fun _ _ _ _ => rfl) fun _ =>
      oblivious_encode.bind fun _ => (oblivious_onlyIf oblivious_hideName).bind fun _ =>
      oblivious_nextExtensions.bind fun _ => oblivious_get (fun _ _ _ _ => rfl) fun _ =>
      oblivious_encodeAssertionResponse.bind fun _ => oblivious_encode.bind fun _ =>
      blind_pure

end Assertion

/-! ## New credentials -/

section MakeCredential

variable {P : Platform} {C : CredMgmtState → CredMgmtState → Prop}

theorem oblivious_excludeLoop {h : Bytes 32} {l : Bytes 16} {slot : Slot} {n : Nat}
    {cred : CredentialDescriptor} {it : CborValue} :
    Oblivious P C (excludeLoop P h l slot n cred it) := by
  induction n generalizing cred it with
  | zero => exact blind_pure
  | succ n ih =>
    refine oblivious_ctapCheck.bind fun cred => oblivious_get (fun _ _ _ _ => rfl) fun w => ?_
    rcases excludeCheck P w h l slot cred with _ | _ | _
    · exact ih
    · exact oblivious_ctapCheck.bind fun _ => ih
    · exact oblivious_requireUserPresence.bind fun _ => oblivious_failWith

theorem oblivious_checkExcludeList {MC : MakeCredential} {h : Bytes 32} {l : Bytes 16} :
    Oblivious P C (checkExcludeList P MC h l) := by
  unfold checkExcludeList
  cases MC.excludeList with
  | none => exact blind_pure
  | some it => exact oblivious_get (fun _ _ _ _ => rfl) fun _ => oblivious_excludeLoop

theorem oblivious_cborEncodeAttestationStatement {map : Encoder} {sig : List UInt8} :
    Oblivious P C (cborEncodeAttestationStatement map sig) := by
  refine oblivious_encode.bind fun _ => oblivious_get (fun _ _ _ _ => rfl) fun _ => blind_ite
    (oblivious_get (fun _ _ _ _ => rfl) fun w => ?_) (oblivious_encode.bind fun _ => oblivious_encode)
  cases attestationReadCert w with
  | none => exact oblivious_failWith
  | some cert =>
    exact oblivious_encode.bind fun _ => oblivious_encode.bind fun _ => oblivious_encode.bind fun _ =>
      oblivious_encode.bind fun _ => oblivious_encode.bind fun _ => oblivious_encode.bind fun _ =>
      oblivious_encode.bind fun _ => oblivious_encode.bind fun _ => oblivious_encode.bind fun _ =>
      oblivious_encode

theorem oblivious_attestationSignature {a : List UInt8} {h : Bytes 32} :
    Oblivious P C (attestationSignature P a h) := by
  refine oblivious_get (fun _ _ _ _ => rfl) fun w => ?_
  rcases w.attestationKey with _ | ⟨k, n⟩
  · exact blind_pure
  · exact oblivious_ctapSignData

theorem oblivious_verifyMakeCredentialAuth {MC : MakeCredential} :
    Oblivious P C (verifyMakeCredentialAuth P MC) :=
  oblivious_get (fun _ _ _ _ => rfl) fun _ => blind_ite
    (oblivious_failIf.bind fun _ => oblivious_clientPinVerifyAuthEx.bind fun _ =>
      oblivious_get (fun _ _ _ _ => rfl) fun _ => oblivious_failIf.bind fun _ => oblivious_get (fun _ _ _ _ => rfl) fun _ => oblivious_failIf)
    blind_pure

theorem oblivious_makeCredentialAuthData {MC : MakeCredential} {h : Bytes 32} {l : Bytes 16} :
    Oblivious P C (makeCredentialAuthData P MC h l) :=
  oblivious_ctapMakeAuthData_some.bind fun (_, _) =>
    oblivious_clearPinFlags.bind fun _ =>
    oblivious_ctapExtensionsEncodeOutput.bind fun _ => blind_pure

theorem oblivious_ctapMakeCredential {request : List UInt8} :
    Oblivious P C (ctapMakeCredential P request) :=
  oblivious_ctapCheck.bind fun _ =>
    (oblivious_onlyIf oblivious_selectByTouch).bind fun _ =>
    oblivious_failIf.bind fun _ => oblivious_verifyMakeCredentialAuth.bind fun _ =>
    oblivious_failIf.bind fun _ => oblivious_get (fun _ _ _ _ => rfl) fun _ => oblivious_get (fun _ _ _ _ => rfl) fun _ =>
    oblivious_get (fun _ _ _ _ => rfl) fun _ => oblivious_failIf.bind fun _ =>
    oblivious_checkExcludeList.bind fun _ =>
    oblivious_encode.bind fun _ => oblivious_encode.bind fun _ => oblivious_get (fun _ _ _ _ => rfl) fun _ =>
    oblivious_encode.bind fun _ => oblivious_makeCredentialAuthData.bind fun _ =>
    oblivious_encode.bind fun _ => oblivious_encode.bind fun _ =>
    oblivious_attestationSignature.bind fun _ =>
    oblivious_cborEncodeAttestationStatement.bind fun _ =>
    oblivious_encode.bind fun _ => blind_pure

end MakeCredential

/-! ## Credential management -/

section CredentialManagement

variable {P : Platform} {C : CredMgmtState → CredMgmtState → Prop}

theorem oblivious_verifyPinAuthForCredentialManagement {CM : CredMgmt} :
    Oblivious P C (verifyPinAuthForCredentialManagement P CM) :=
  blind_ite blind_pure
    (oblivious_failIf.bind fun _ => oblivious_failIf.bind fun _ => oblivious_clientPinVerifyAuthEx.bind fun _ =>
      oblivious_get (fun _ _ _ _ => rfl) fun _ => oblivious_failIf.bind fun _ => blind_ite
        (oblivious_get (fun _ _ _ _ => rfl) fun _ => oblivious_failIf) (oblivious_get (fun _ _ _ _ => rfl) fun _ => oblivious_failIf))

/-- An enumeration that is written is the same in both, whatever was there. -/
theorem World.Like.setCm {w w' : World} (h : w.Like P C w') (cm : CredMgmtState) :
    ({ w with cm := cm } : World).Like P Eq { w' with cm := cm } := by
  obtain ⟨lastcmd, _, pub, rfl, -, hkeys⟩ := h
  exact ⟨lastcmd, cm, pub, rfl, rfl, hkeys⟩

theorem blind_setCm {cm : CredMgmtState} : Blind (World.Like P C) (World.Like P Eq) (setCm cm) :=
  blind_modify fun _ _ h => h.setCm cm

theorem blind_clearState : Blind (World.Like P C) (World.Like P Eq) clearState := blind_setCm

theorem blind_initState {cmd : UInt8} : Blind (World.Like P C) (World.Like P Eq) (initState cmd) := by
  rintro w - ⟨lastcmd, cm, pub, rfl, -, hkeys⟩
  exact .ok () ⟨lastcmd, _, pub, rfl, rfl, hkeys.congr rfl rfl⟩

theorem oblivious_checkState {cmd : UInt8} : Oblivious P Eq (checkState cmd) :=
  oblivious_get_cm (fun _ _ _ => rfl) fun _ => blind_ite blind_pure <|
    blind_ite (blind_clearState.bind fun _ => blind_pure) <|
    oblivious_millis.bind fun _ => blind_ite
      (blind_clearState.bind fun _ => blind_pure)
      (blind_setCm.bind fun _ => blind_pure)

theorem oblivious_scanCount {l : Bytes 16} : Oblivious P Eq (scanCount l) :=
  oblivious_get_cm (fun _ _ _ => rfl) fun _ => blind_setCm.bind fun _ => blind_pure

theorem oblivious_scanNext {l : Bytes 16} : Oblivious P Eq (scanNext P l) := by
  refine oblivious_get_cm (fun _ _ _ => rfl) fun w => ?_
  dsimp only
  split
  · exact blind_setCm.bind fun _ => blind_pure
  · exact blind_setCm.bind fun _ => blind_pure

theorem oblivious_getCountUniqueRelyingParties : Oblivious P Eq getCountUniqueRelyingParties :=
  oblivious_get_cm (fun _ _ _ => rfl) fun _ => blind_setCm.bind fun _ => blind_pure

theorem nextFileWithRps_relabel {w : World} {lastcmd : UInt8} {cm : CredMgmtState} {pub : Slot → Bytes 64} (n : Nat)
    (next : CredMgmtState) : nextFileWithRps (w.relabel lastcmd cm pub) n next = nextFileWithRps w n next := by
  induction n generalizing next with
  | zero => rfl
  | succ n ih =>
    unfold nextFileWithRps
    simp only [ih]
    rfl

theorem oblivious_getNextUniqueRp : Oblivious P Eq (getNextUniqueRp P) := by
  refine oblivious_get_cm (fun w lastcmd pub => ?_) fun _ => blind_setCm.bind fun _ => blind_ite blind_pure <|
    blind_ite blind_pure <| blind_setCm.bind fun _ => blind_pure
  simp only [nextFileWithRps_relabel]
  rfl

theorem oblivious_cborEncodeCredentialMetadata : Oblivious P C cborEncodeCredentialMetadata :=
  oblivious_get (fun _ _ _ _ => rfl) fun _ => oblivious_encode.bind fun _ => oblivious_encode.bind fun _ =>
    oblivious_encode.bind fun _ => oblivious_encode.bind fun _ => oblivious_encode.bind fun _ =>
    oblivious_encode.bind fun _ => blind_pure

theorem oblivious_cborEncodeEnumerateCredential {rk : ResidentKey} {n : Nat} :
    Oblivious P C (cborEncodeEnumerateCredential P rk n) :=
  oblivious_get (fun _ _ _ _ => rfl) fun _ => oblivious_encode.bind fun _ => oblivious_encode.bind fun _ =>
    oblivious_encode.bind fun _ => oblivious_encode.bind fun _ => oblivious_encode.bind fun _ =>
    oblivious_encode.bind fun _ => oblivious_coseKeyGenerate.bind fun _ => oblivious_encode.bind fun _ =>
    oblivious_encode.bind fun _ => oblivious_encode.bind fun _ => oblivious_encode.bind fun _ => blind_pure

theorem oblivious_cborEncodeEnumerateRp {rk : ResidentKey} {n : Nat} :
    Oblivious P C (cborEncodeEnumerateRp rk n) :=
  oblivious_encode.bind fun _ => oblivious_encode.bind fun _ => oblivious_encode.bind fun _ =>
    oblivious_encode.bind fun _ => oblivious_encode.bind fun _ => oblivious_encode.bind fun _ =>
    oblivious_encode.bind fun _ => oblivious_encode.bind fun _ => oblivious_encode.bind fun _ =>
    oblivious_encode.bind fun _ => oblivious_encode.bind fun _ => oblivious_encode.bind fun _ => blind_pure

theorem oblivious_endEnumeration {α : Type} {s : CtapError} :
    Oblivious P Eq (endEnumeration s : CtapM α) :=
  blind_clearState.bind fun _ => oblivious_failWith

theorem blind_enumerateRpsBegin : Blind (World.Like P C) (World.Like P Eq) (enumerateRpsBegin P) :=
  blind_initState.then (fun _ _ h => h) fun _ => oblivious_getCountUniqueRelyingParties.bind fun _ =>
    (oblivious_onlyIf oblivious_endEnumeration).bind fun _ =>
    oblivious_getNextUniqueRp.bind fun r => by
      cases r with
      | none => exact oblivious_endEnumeration
      | some rk => exact oblivious_cborEncodeEnumerateRp

/-- Enumerations are the same in both, or valid in neither. -/
def EnumerationsLike (cm cm' : CredMgmtState) : Prop := cm' = cm ∨ cm.valid = false ∧ cm'.valid = false

/-- The worlds differ in what no answer shows. -/
def World.AnswersLike (P : Platform) (w w' : World) : Prop := w.Like P EnumerationsLike w'

theorem World.Like.answersLike {w w' : World} (h : w.Like P Eq w') : w.AnswersLike P w' := by
  obtain ⟨lastcmd, cm, pub, rfl, rfl, hkeys⟩ := h
  exact ⟨lastcmd, _, pub, rfl, .inl rfl, hkeys⟩

/-- The next answer of an enumeration, if there is one. -/
theorem oblivious_continued {cmd : UInt8} {m : CtapM (List UInt8)} (hm : Oblivious P Eq m) :
    Oblivious P EnumerationsLike (do
      let valid ← checkState cmd
      failIf (valid = false) .notAllowed
      m) := by
  rintro w w' ⟨lastcmd, cm, pub, rfl, rfl | ⟨hw, hcm⟩, hkeys⟩
  · have hsame : Oblivious P Eq (do
        let valid ← checkState cmd
        failIf (valid = false) .notAllowed
        m) :=
      oblivious_checkState.bind fun _ => oblivious_failIf.bind fun _ => hm
    exact (hsame _ _ ⟨lastcmd, _, pub, rfl, rfl, hkeys⟩).mono fun _ _ h => h.answersLike
  · rw [bind_of_ok (checkState_invalid hw), bind_of_ok (checkState_invalid (w := w.relabel lastcmd cm pub) hcm)]
    exact .error _ ⟨lastcmd, cm, pub, rfl, .inr ⟨hw, hcm⟩, hkeys⟩

theorem oblivious_enumerateRpsGetNextRp : Oblivious P EnumerationsLike (enumerateRpsGetNextRp P) :=
  oblivious_continued <| oblivious_getNextUniqueRp.bind fun r => by
    cases r with
    | none => exact oblivious_endEnumeration
    | some rk => exact oblivious_cborEncodeEnumerateRp

theorem blind_enumerateCredentialsBegin {params : SubCommandParams} :
    Blind (World.Like P C) (World.Like P Eq) (enumerateCredentialsBegin P params) :=
  blind_initState.then (fun _ _ h => h) fun _ => oblivious_failIf.bind fun _ =>
    (oblivious_modifyCm fun _ _ _ => rfl).bind fun _ => oblivious_get_cm (fun _ _ _ => rfl) fun _ =>
    oblivious_scanCount.bind fun _ =>
    (oblivious_onlyIf oblivious_endEnumeration).bind fun _ =>
    oblivious_scanNext.bind fun r => by
      cases r with
      | none => exact oblivious_endEnumeration
      | some rk => exact oblivious_cborEncodeEnumerateCredential

theorem oblivious_enumerateCredentialsGetNextCredential :
    Oblivious P EnumerationsLike (enumerateCredentialsGetNextCredential P) :=
  oblivious_continued <| oblivious_get_cm (fun _ _ _ => rfl) fun _ => oblivious_scanNext.bind fun r => by
    cases r with
    | none => exact oblivious_endEnumeration
    | some rk => exact oblivious_cborEncodeEnumerateCredential

theorem oblivious_deleteCredential {params : SubCommandParams} :
    Oblivious P C (deleteCredential P params) :=
  oblivious_failIf.bind fun _ => oblivious_ctapDeleteRk.bind fun _ => oblivious_failIf.bind fun _ =>
    blind_pure

theorem oblivious_findCredential {id : CredentialId} {fuel : Nat} :
    Oblivious P Eq (findCredential P id fuel) := by
  induction fuel with
  | zero => exact blind_throw
  | succ fuel ih =>
    refine oblivious_scanNext.bind fun r => ?_
    cases r with
    | none => exact oblivious_failWith
    | some rk => exact blind_ite blind_pure ih

theorem blind_updateCredentialUserInfo {id : CredentialId} {u : UserEntity} :
    Blind (World.Like P C) (World.Like P Eq) (updateCredentialUserInfo P id u) :=
  blind_clearState.then (fun _ _ h => h) fun _ => oblivious_get_cm (fun _ _ _ => rfl) fun _ =>
    oblivious_findCredential.bind fun _ => oblivious_failIf.bind fun _ =>
    oblivious_ctapGenerateRng.bind fun _ =>
    oblivious_ctapOverwriteRk.bind fun _ =>
    blind_clearState.bind fun _ => blind_pure

theorem oblivious_updateUserInformation {params : SubCommandParams} :
    Oblivious P EnumerationsLike (updateUserInformation P params) :=
  oblivious_failIf.bind fun _ => blind_updateCredentialUserInfo.weaken fun _ _ h => h.answersLike

/-- The switch over the sub-commands. -/
theorem oblivious_credMgmtCommand {CM : CredMgmt} : Oblivious P EnumerationsLike (credMgmtCommand P CM) := by
  unfold credMgmtCommand
  split
  · exact oblivious_cborEncodeCredentialMetadata
  · exact blind_enumerateRpsBegin.weaken fun _ _ h => h.answersLike
  · exact oblivious_enumerateRpsGetNextRp
  · exact blind_enumerateCredentialsBegin.weaken fun _ _ h => h.answersLike
  · exact oblivious_enumerateCredentialsGetNextCredential
  · exact oblivious_deleteCredential
  · exact oblivious_updateUserInformation
  · exact oblivious_failWith

theorem oblivious_ctapCredentialManagement {request : List UInt8} :
    Oblivious P EnumerationsLike (ctapCredentialManagement P request) :=
  oblivious_ctapCheck.bind fun _ => oblivious_verifyPinAuthForCredentialManagement.bind fun _ =>
    oblivious_credMgmtCommand

end CredentialManagement

/-! ## Other commands -/

section Other

variable {P : Platform} {C : CredMgmtState → CredMgmtState → Prop}

theorem oblivious_ctapGetInfo : Oblivious P C ctapGetInfo :=
  oblivious_get (fun _ _ _ _ => rfl) fun _ => oblivious_encode.bind fun _ => blind_pure

theorem oblivious_ctapSelection : Oblivious P C ctapSelection :=
  oblivious_ctap2UserPresenceTest.bind fun _ => oblivious_failIf.bind fun _ => blind_pure

theorem oblivious_ctapStateInit :
    Oblivious P C ctapStateInit :=
  oblivious_ctapGenerateRng.bind fun _ =>
    Blind.bind (oblivious_modify (fun _ _ _ _ => rfl) fun _ => ⟨rfl, rfl, rfl⟩)
      fun _ => oblivious_ctapResetRk

theorem oblivious_deriveKeys : Oblivious P C (deriveKeys P) :=
  (oblivious_modify (fun _ _ _ _ => rfl) fun _ => ⟨rfl, rfl, rfl⟩)

/-- `ctap_reset_state` forgets the last command as well. -/
theorem oblivious_clearGa : Oblivious P C (modify fun w => { w with ga := {} }) := by
  refine blind_modify ?_
  rintro w - ⟨lastcmd, cm, pub, rfl, hcm, hkeys⟩
  exact ⟨0, cm, pub, rfl, hcm, hkeys⟩

theorem oblivious_ctapReset :
    Oblivious P C (ctapReset P) :=
  oblivious_millis.bind fun _ => oblivious_failIf.bind fun _ =>
    oblivious_requireUserPresence.bind fun _ =>
    oblivious_ctapStateInit.bind fun _ =>
    oblivious_authenticatorWriteState.bind fun _ =>
    Blind.bind oblivious_clearGa fun _ =>
    oblivious_clientPinInitialize.bind fun _ =>
    oblivious_deriveKeys.bind fun _ => blind_pure

end Other

/-! ## Requests -/

section Requests

variable {P : Platform} {w w' : World}

/-- The worlds differ in what the next answer does not show. -/
structure World.NextLike (P : Platform) (w w' : World) : Prop where
  like : w.AnswersLike P w'
  lastcmd : w'.ga.lastcmd = 0x02 ↔ w.ga.lastcmd = 0x02

theorem blind_nextAssertion : Blind (World.NextLike P) (World.AnswersLike P) (do
    failIf ((← get).ga.lastcmd ≠ 0x02) .notAllowed
    ctapGetNextAssertion P) := by
  refine blind_get_bind (fun w w' h => ?_) fun _ => ?_
  · by_cases hw : w.ga.lastcmd = 0x02
    · rw [failIf, failIf, if_neg (not_not.mpr hw), if_neg (not_not.mpr (h.lastcmd.mpr hw))]
    · rw [failIf, failIf, if_pos hw, if_pos fun hw' => hw (h.lastcmd.mp hw')]
  · exact Blind.mono (oblivious_failIf.bind fun _ => oblivious_ctapGetNextAssertion) fun _ _ h => h.like

theorem blind_dispatch {c : Command} {request : List UInt8} :
    Blind (World.NextLike P) (World.AnswersLike P) (dispatch P c request) := by
  have hlocked {m : CtapM (List UInt8)} (hm : Blind (World.NextLike P) (World.AnswersLike P) m) :
      Blind (World.NextLike P) (World.AnswersLike P) (do
        failIf (c.checksLock ∧ clientPinIsLocked (← get)) .pinBlocked
        failIf (c.checksLock ∧ clientPinIsBootLocked (← get)) .pinAuthBlocked
        m) := by
    have hfail {q : Prop} [Decidable q] {e : CtapError} :
        Blind (World.NextLike P) (World.NextLike P) (failIf q e) := blind_ite blind_throw blind_pure
    have hread {s t : World} (h : s.NextLike P t) :
        clientPinIsLocked s = clientPinIsLocked t ∧ clientPinIsBootLocked s = clientPinIsBootLocked t := by
      obtain ⟨_, _, _, rfl, -⟩ := h.like
      exact ⟨rfl, rfl⟩
    refine blind_get_bind (fun s t h => ?_) fun _ => hfail.then (fun _ _ h => h.like) fun _ =>
      blind_get_bind (fun s t h => ?_) fun _ => hfail.then (fun _ _ h => h.like) fun _ => hm
    · rw [(hread h).1]
    · rw [(hread h).2]
  have hlike {m : CtapM (List UInt8)} (hm : Oblivious P EnumerationsLike m) :
      Blind (World.NextLike P) (World.AnswersLike P) m := Blind.mono hm fun _ _ h => h.like
  cases c with
  | makeCredential => exact hlocked (hlike oblivious_ctapMakeCredential)
  | getAssertion => exact hlocked (hlike oblivious_ctapGetAssertion)
  | getInfo => exact hlocked (hlike oblivious_ctapGetInfo)
  | clientPin => exact hlocked (hlike oblivious_ctapClientPin)
  | reset => exact hlocked (hlike oblivious_ctapReset)
  | getNextAssertion => exact hlocked blind_nextAssertion
  | credentialManagement => exact hlocked (hlike oblivious_ctapCredentialManagement)
  | selection => exact hlocked (hlike oblivious_ctapSelection)
  | invalid => exact hlocked (hlike oblivious_failWith)

theorem blind_ctapRequest {cmd : UInt8} {request : List UInt8} :
    Blind (World.NextLike P) (World.AnswersLike P) (ctapRequest P cmd request) := by
  refine Blind.then (Blind.tryCatch (blind_dispatch.then (fun _ _ h => h) fun _ => blind_pure) fun e => ?_)
    (fun _ _ h => h) fun r => ?_
  · cases e with
    | status s => exact blind_pure
    | halt h => exact blind_throw
  · refine Blind.bind (blind_modify ?_) fun _ => blind_pure
    rintro w - ⟨lastcmd, cm, pub, rfl, hcm, hkeys⟩
    exact ⟨nextLastcmd cmd r.1, cm, pub, rfl, hcm, hkeys⟩

theorem World.AnswersLike.withInputs (h : w.AnswersLike P w') {inputs : Inputs} (hinputs : inputs.DrawsKeys P) :
    (w.withInputs inputs).AnswersLike P (w'.withInputs inputs) := by
  obtain ⟨lastcmd, cm, pub, rfl, hcm, hkeys⟩ := h
  exact ⟨lastcmd, cm, pub, rfl, hcm, hinputs, hkeys.2⟩

/-- A request that is sent, with the inputs while it is served. -/
structure Query where
  cmd : UInt8
  request : List UInt8
  inputs : Inputs

/-- The answers to requests that come one after the other; a device that halts answers no more. -/
def World.replies (P : Platform) : List Query → World → List (CtapStatus × List UInt8)
  | [], _ => []
  | q :: l, w =>
    match ctapRequest P q.cmd q.request (w.withInputs q.inputs) with
    | .ok r w' => r :: World.replies P l w'
    | .error _ _ => []

/-- Whatever is asked next, the answers are the same. -/
theorem replies_eq {l : List Query} (hl : ∀ q ∈ l, q.inputs.DrawsKeys P)
    (h : ∀ inputs : Inputs, inputs.DrawsKeys P → (w.withInputs inputs).NextLike P (w'.withInputs inputs)) :
    w.replies P l = w'.replies P l := by
  induction l generalizing w w' with
  | nil => rfl
  | cons q l ih =>
    have hq : q.inputs.DrawsKeys P := hl q List.mem_cons_self
    have hblind : Blind (World.NextLike P) (World.AnswersLike P) (ctapRequest P q.cmd q.request) := blind_ctapRequest
    have hreply := hblind _ _ (h q.inputs hq)
    unfold World.replies
    generalize hx : ctapRequest P q.cmd q.request (w.withInputs q.inputs) = x at hreply
    generalize hy : ctapRequest P q.cmd q.request (w'.withInputs q.inputs) = y at hreply
    cases hreply with
    | error e _ => rfl
    | ok r hlike =>
      obtain ⟨w₁, rfl, -⟩ := ctapRequest_cases hx
      obtain ⟨w₂, rfl, -⟩ := ctapRequest_cases hy
      refine congrArg (r :: ·) (ih (fun q hq => hl q (List.mem_cons_of_mem _ hq)) fun inputs hinputs => ?_)
      exact ⟨hlike.withInputs hinputs, Iff.rfl⟩

end Requests

end TkeyFido2
