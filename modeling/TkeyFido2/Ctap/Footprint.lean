import TkeyFido2.Ctap.Request

/-!
# Footprints

Which parts of the world each function may change.  A function that is not named in the footprint of
another cannot be called by it with effect, so these statements are where a change of the code shows
first.
-/

namespace TkeyFido2

open Cbor Prog

/-! ## Parts -/

/-- The result of a PIN comparison. -/
def Event.pinCheck? : Event → Option Bool
  | .pinCompared b => some b
  | _ => none

def Event.isIssue : Event → Bool
  | .tokenIssued .. => true
  | _ => false

def Event.isVerification : Event → Bool
  | .tokenVerified .. => true
  | _ => false

/-- Events that matter for how long a token is used. -/
def Event.isUsage : Event → Bool
  | .tokenStarted .. | .tokenObserved .. | .tokenIssued .. | .tokenVerified .. => true
  | _ => false

def Event.isHmacOutput : Event → Bool
  | .hmacOutput .. => true
  | _ => false

def Event.isSignature : Event → Bool
  | .signature .. => true
  | _ => false

/-- A change of the store. -/
def Event.rkChange? : Event → Option RkChange
  | .rkChanged c => some c
  | _ => none

/-- Events of an assertion. -/
def Event.isAssertion : Event → Bool
  | .presenceTested _ | .filtered _ | .signed .. => true
  | _ => false

/-- What the order of which matters when the power is cut: PIN comparisons and writes of the state and
of the resident keys. -/
def Event.isJournal : Event → Bool
  | .pinCompared _ | .stateWritten _ | .rkWritten .. => true
  | _ => false

namespace World

def pinChecks (w : World) : List Bool := w.trace.filterMap Event.pinCheck?
def issued (w : World) : List Event := w.trace.filter Event.isIssue
def verified (w : World) : List Event := w.trace.filter Event.isVerification
def hmacOutputs (w : World) : List Event := w.trace.filter Event.isHmacOutput
def signatures (w : World) : List Event := w.trace.filter Event.isSignature
def rkChanges (w : World) : List RkChange := w.trace.filterMap Event.rkChange?
def usage (w : World) : List Event := w.trace.filter Event.isUsage
def assertionEvents (w : World) : List Event := w.trace.filter Event.isAssertion
def journal (w : World) : List Event := w.trace.filter Event.isJournal

/-- The PIN in `STATE`. -/
def pinState (w : World) : UInt8 × Int8 × Bytes 16 × Bytes 16 :=
  (w.state.isPinSet, w.state.remainingTries, w.state.pinHashEnc, w.state.pinHashIv)

def rkStored (w : World) : UInt16 := w.state.rkStored

/-- What a reset renews in `STATE`. -/
def identity (w : World) : UInt8 × UInt32 × Bytes 64 :=
  (w.state.version, w.state.appVersion, w.state.keySalt)

/-- What no function changes. -/
def fixed (w : World) : UInt32 × Option (Bytes 32 × Bytes 16) × Option (List UInt8) × Inputs :=
  (w.appVersion, w.attestationKey, w.attestationCert, w.inputs)

end World

inductive Part
  | stateFile
  | counter
  | rkFiles
  | pinState
  | rkStored
  | identity
  | keys
  | token
  | boot
  | ga
  | cm
  | upDisabled
  | inputs
  | pinChecks
  | issued
  | verified
  | usage
  | hmacOutputs
  | signatures
  | rkChanges
  | assertionEvents
  | journal
  | fixed
  deriving DecidableEq

namespace Part

def type : Part → Type
  | stateFile => List UInt8
  | counter => UInt32
  | rkFiles => Fin 16 → List ResidentKey
  | pinState => UInt8 × Int8 × Bytes 16 × Bytes 16
  | rkStored => UInt16
  | identity => UInt8 × UInt32 × Bytes 64
  | keys => SessionKeys
  | token => Slot → PinUvAuthToken
  | boot => Int8
  | ga => GetAssertionState
  | cm => CredMgmtState
  | upDisabled => Bool
  | inputs => Nat × Nat × Nat
  | pinChecks => List Bool
  | issued => List Event
  | verified => List Event
  | usage => List Event
  | hmacOutputs => List Event
  | signatures => List Event
  | rkChanges => List RkChange
  | assertionEvents => List Event
  | journal => List Event
  | fixed => UInt32 × Option (Bytes 32 × Bytes 16) × Option (List UInt8) × Inputs

def view : (p : Part) → World → p.type
  | stateFile => World.stateFile
  | counter => World.counter
  | rkFiles => World.rkFiles
  | pinState => World.pinState
  | rkStored => World.rkStored
  | identity => World.identity
  | keys => World.keys
  | token => World.token
  | boot => World.pinBootAttemptsLeft
  | ga => World.ga
  | cm => World.cm
  | upDisabled => World.upDisabled
  | inputs => fun w => (w.rngPos, w.presencePos, w.millisPos)
  | pinChecks => World.pinChecks
  | issued => World.issued
  | verified => World.verified
  | usage => World.usage
  | hmacOutputs => World.hmacOutputs
  | signatures => World.signatures
  | rkChanges => World.rkChanges
  | assertionEvents => World.assertionEvents
  | journal => World.journal
  | fixed => World.fixed

end Part

/-- `m` changes only the parts in `S`. -/
abbrev Touches {α : Type} (S : List Part) (m : CtapM α) : Prop := Frames Part.view S m

section Rules

variable {α β : Type} {S T : List Part} {m : CtapM α} {k : α → CtapM β}

/-- Two programs with footprints of their own. -/
theorem Touches.then {U : List Part} (hm : Touches S m) (hk : ∀ a, Touches T (k a))
    (hS : S ⊆ U) (hT : T ⊆ U) : Touches U (m >>= k) :=
  (hm.mono hS).bind fun a => (hk a).mono hT

theorem touches_failWith {s : CtapError} : Touches S (failWith s : CtapM α) := frames_throw

theorem touches_failIf {c : Prop} [Decidable c] {s : CtapError} : Touches S (failIf c s) := by
  unfold failIf
  exact frames_ite touches_failWith frames_pure

theorem touches_checkStatus {s : CtapStatus} : Touches S (checkStatus s) := by
  cases s with
  | ok => exact frames_pure
  | error e => exact frames_throw

theorem touches_ctapCheck {x : Parse α} : Touches S (ctapCheck x : CtapM α) := by
  cases x with
  | ok a => exact frames_pure
  | error e => exact frames_throw

theorem touches_encode {x : EncM α} : Touches S (encode x) := touches_ctapCheck

/-- The parts that show an event. -/
def Event.parts : Event → List Part
  | .pinCompared _ => [.pinChecks, .journal]
  | .tokenIssued .. => [.issued, .usage]
  | .tokenVerified .. => [.verified, .usage]
  | .tokenStarted .. | .tokenObserved .. => [.usage]
  | .hmacOutput .. => [.hmacOutputs]
  | .signature .. => [.signatures]
  | .rkChanged _ => [.rkChanges]
  | .presenceTested _ | .filtered _ | .signed .. => [.assertionEvents]
  | .stateWritten _ | .rkWritten .. => [.journal]
  | .counterWritten _ => []

/-- An event leaves the views alone that it does not belong to. -/
theorem view_emit {p : Part} {w : World} {e : Event} (hp : p ∉ e.parts) :
    p.view { w with trace := w.trace ++ [e] } = p.view w := by
  cases p with
  | pinChecks =>
    have he : e.pinCheck? = none := by cases e <;> first | rfl | simp [Event.parts] at hp
    show (w.trace ++ [e]).filterMap Event.pinCheck? = w.trace.filterMap Event.pinCheck?
    simp [he]
  | issued =>
    have he : e.isIssue = false := by cases e <;> first | rfl | simp [Event.parts] at hp
    show (w.trace ++ [e]).filter Event.isIssue = w.trace.filter Event.isIssue
    simp [he]
  | verified =>
    have he : e.isVerification = false := by cases e <;> first | rfl | simp [Event.parts] at hp
    show (w.trace ++ [e]).filter Event.isVerification = w.trace.filter Event.isVerification
    simp [he]
  | usage =>
    have he : e.isUsage = false := by cases e <;> first | rfl | simp [Event.parts] at hp
    show (w.trace ++ [e]).filter Event.isUsage = w.trace.filter Event.isUsage
    simp [he]
  | hmacOutputs =>
    have he : e.isHmacOutput = false := by cases e <;> first | rfl | simp [Event.parts] at hp
    show (w.trace ++ [e]).filter Event.isHmacOutput = w.trace.filter Event.isHmacOutput
    simp [he]
  | signatures =>
    have he : e.isSignature = false := by cases e <;> first | rfl | simp [Event.parts] at hp
    show (w.trace ++ [e]).filter Event.isSignature = w.trace.filter Event.isSignature
    simp [he]
  | rkChanges =>
    have he : e.rkChange? = none := by cases e <;> first | rfl | simp [Event.parts] at hp
    show (w.trace ++ [e]).filterMap Event.rkChange? = w.trace.filterMap Event.rkChange?
    simp [he]
  | assertionEvents =>
    have he : e.isAssertion = false := by cases e <;> first | rfl | simp [Event.parts] at hp
    show (w.trace ++ [e]).filter Event.isAssertion = w.trace.filter Event.isAssertion
    simp [he]
  | journal =>
    have he : e.isJournal = false := by cases e <;> first | rfl | simp [Event.parts] at hp
    show (w.trace ++ [e]).filter Event.isJournal = w.trace.filter Event.isJournal
    simp [he]
  | _ => rfl

theorem touches_emit {e : Event} (h : e.parts ⊆ S) : Touches S (emit e) :=
  frames_modify fun _ hp _ => view_emit fun hp' => hp (h hp')

theorem touches_emit_tokenIssued {slot : Slot} {t : Bytes 32} {perms : UInt8}
    {rp : Option (List UInt8)} : Touches [.issued, .usage] (emit (.tokenIssued slot t perms rp)) :=
  touches_emit (by simp [Event.parts])

theorem touches_emit_tokenVerified {slot : Slot} {t : Bytes 32} {m a : List UInt8} :
    Touches [.verified, .usage] (emit (.tokenVerified slot t m a)) :=
  touches_emit (by simp [Event.parts])

theorem touches_emit_usage {e : Event} (he : e.parts = [.usage]) : Touches [.usage] (emit e) :=
  touches_emit (by rw [he]; exact List.Subset.refl _)

theorem touches_emit_assertion {e : Event} (he : e.isAssertion = true) :
    Touches [.assertionEvents] (emit e) := by
  refine touches_emit ?_
  cases e <;> simp_all [Event.isAssertion, Event.parts]

end Rules

/-! ## Device -/

section Device

variable {P : Platform}

theorem touches_ctapGenerateRng {n : Nat} : Touches [.inputs] (ctapGenerateRng n) :=
  frames_modifyGet fun p hp _ => by cases p <;> first | rfl | simp at hp

theorem touches_drawing {α : Type} {f : (Nat → UInt8) → α × Nat} : Touches [.inputs] (drawing f) :=
  frames_modifyGet fun p hp _ => by cases p <;> first | rfl | simp at hp

theorem touches_millis : Touches [.inputs] millis :=
  frames_modifyGet fun p hp _ => by cases p <;> first | rfl | simp at hp

theorem touches_ctapUserPresenceTest : Touches [.inputs, .assertionEvents] ctapUserPresenceTest := by
  unfold ctapUserPresenceTest
  refine frames_get.bind fun w => frames_ite frames_pure ?_
  refine Frames.bind (frames_modifyGet fun p hp _ => ?_) fun b => ?_
  · cases p <;> first | rfl | simp at hp
  · exact ((touches_emit_assertion rfl).mono (by decide)).bind fun _ => frames_pure

theorem touches_deviceDisableUp {b : Bool} : Touches [.upDisabled] (deviceDisableUp b) :=
  frames_modify fun p hp _ => by cases p <;> first | rfl | simp at hp

theorem touches_ctapAtomicCount {n : UInt32} : Touches [.inputs, .counter] (ctapAtomicCount n) := by
  unfold ctapAtomicCount countAmount
  refine Frames.bind (frames_ite ?_ frames_pure) fun a => Frames.bind ?_ fun c => ?_
  · exact (touches_ctapGenerateRng.mono (by decide)).bind fun _ => frames_pure
  · exact frames_modifyGet fun p hp _ => by cases p <;> first | rfl | simp at hp
  · exact (touches_emit (List.nil_subset _)).bind fun _ => frames_pure

theorem touches_authenticatorWriteState :
    Touches [.stateFile, .journal] (authenticatorWriteState P) := by
  unfold authenticatorWriteState
  refine frames_get.bind fun w => ?_
  dsimp only
  cases stateEnvelope P w.state with
  | error e => exact frames_throw
  | ok f =>
    refine Frames.bind (frames_modify fun p hp _ => ?_) fun _ => touches_emit (by simp [Event.parts])
    cases p <;> first | rfl | simp at hp

theorem touches_writeRkFile {n : Fin 16} {l : List ResidentKey} {c : RkChange} :
    Touches [.rkFiles, .rkChanges, .journal] (writeRkFile n l c) :=
  Frames.bind (frames_modify fun p hp _ => by cases p <;> first | rfl | simp at hp)
    fun _ => Frames.bind (touches_emit (by simp [Event.parts])) fun _ => touches_emit (by simp [Event.parts])

theorem touches_ctapResetRk : Touches [.rkFiles, .rkChanges, .journal] ctapResetRk := by
  refine Frames.bind (frames_modify fun p hp w => ?_) fun _ => touches_emit (by simp [Event.parts])
  have hnone {β : Type} {f : Event → Option β} (hf : ∀ n, f (.rkWritten n []) = none) :
      (w.trace ++ (List.finRange 16).map fun n => Event.rkWritten n []).filterMap f
        = w.trace.filterMap f := by
    rw [List.filterMap_append, List.append_right_eq_self, List.filterMap_eq_nil_iff]
    intro e he
    obtain ⟨n, -, rfl⟩ := List.mem_map.mp he
    exact hf n
  have hfalse {f : Event → Bool} (hf : ∀ n, f (.rkWritten n []) = false) :
      (w.trace ++ (List.finRange 16).map fun n => Event.rkWritten n []).filter f
        = w.trace.filter f := by
    rw [List.filter_append, List.append_right_eq_self, List.filter_eq_nil_iff]
    intro e he
    obtain ⟨n, -, rfl⟩ := List.mem_map.mp he
    simp [hf n]
  cases p with
  | pinChecks => exact hnone fun _ => rfl
  | issued => exact hfalse fun _ => rfl
  | verified => exact hfalse fun _ => rfl
  | usage => exact hfalse fun _ => rfl
  | hmacOutputs => exact hfalse fun _ => rfl
  | signatures => exact hfalse fun _ => rfl
  | rkChanges => simp at hp
  | assertionEvents => exact hfalse fun _ => rfl
  | rkFiles => simp at hp
  | journal => simp at hp
  | _ => rfl

theorem touches_ctapIncrementRkStore : Touches [.rkStored, .stateFile, .journal] (ctapIncrementRkStore P) :=
  Frames.bind (frames_modify fun p hp _ => by cases p <;> first | rfl | simp at hp)
    fun _ => touches_authenticatorWriteState.mono (by decide)

theorem touches_ctapDecrementRkStore : Touches [.rkStored, .stateFile, .journal] (ctapDecrementRkStore P) :=
  Frames.bind (frames_modify fun p hp _ => by cases p <;> first | rfl | simp at hp)
    fun _ => touches_authenticatorWriteState.mono (by decide)

theorem touches_ctapOverwriteRk {rk : ResidentKey} :
    Touches [.rkFiles, .rkChanges, .rkStored, .stateFile, .journal] (ctapOverwriteRk P rk) := by
  unfold ctapOverwriteRk
  refine frames_get.bind fun w => ?_
  dsimp only
  cases overwriteFirst rk (w.rkFiles (rkFile rk.id.rpIdLookup)) with
  | some l => exact touches_writeRkFile.mono (by decide)
  | none =>
    exact (touches_writeRkFile.mono (by decide)).bind fun _ =>
      touches_ctapIncrementRkStore.mono (by decide)

theorem touches_ctapDeleteRk {id : CredentialId} :
    Touches [.rkFiles, .rkChanges, .rkStored, .stateFile, .journal] (ctapDeleteRk P id) := by
  unfold ctapDeleteRk
  refine frames_get.bind fun w => ?_
  cases deleteFirst id (w.rkFiles (rkFile id.rpIdLookup)) with
  | none => exact frames_pure
  | some l =>
    exact (touches_writeRkFile.mono (by decide)).bind fun _ =>
      (touches_ctapDecrementRkStore.mono (by decide)).bind fun _ => frames_pure

end Device

/-! ## Credentials -/

section Credential

variable {P : Platform}

theorem touches_cryptoEcc256DerivePublicKey {data : List UInt8} :
    Touches [.inputs] (cryptoEcc256DerivePublicKey P data) :=
  frames_get.bind fun _ => touches_drawing.bind fun _ => frames_pure

theorem touches_coseKeyGenerate {e : Encoder} {data : List UInt8} {t : CredType}
    {alg : Option CoseAlg} : Touches [.inputs] (coseKeyGenerate P e data t alg) := by
  unfold coseKeyGenerate
  refine frames_ite frames_pure ?_
  split
  · exact touches_cryptoEcc256DerivePublicKey.bind fun _ => frames_pure
  · exact frames_get.bind fun _ => frames_pure
  · exact frames_pure

theorem touches_ctapSignData {key h : Bytes 32} {data : List UInt8} {alg : CoseAlg} :
    Touches [.inputs, .signatures] (ctapSignData P key data h alg) := by
  have hemit {alg : CoseAlg} {sig : List UInt8} :
      Touches [.inputs, .signatures] (emit (.signature alg key sig)) := touches_emit (by simp [Event.parts])
  unfold ctapSignData
  refine frames_ite (frames_ite frames_pure (hemit.bind fun _ => frames_pure))
    ((touches_drawing.mono (by decide)).bind fun sig => ?_)
  cases sig with
  | some sig => exact hemit.bind fun _ => frames_pure
  | none => exact frames_throw

theorem touches_ctap2UserPresenceTest :
    Touches [.inputs, .assertionEvents] ctap2UserPresenceTest :=
  touches_ctapUserPresenceTest.bind fun r => by cases r <;> exact frames_pure

theorem touches_requireUserPresence : Touches [.inputs, .assertionEvents] requireUserPresence :=
  touches_ctap2UserPresenceTest.bind fun _ => touches_checkStatus

theorem touches_ctapAuthDataUpdateCount : Touches [.inputs, .counter] ctapAuthDataUpdateCount :=
  touches_ctapAtomicCount.bind fun _ => frames_ite touches_ctapAtomicCount frames_pure

end Credential

/-! ## The PIN -/

section ClientPin

variable {P : Platform}

theorem touches_setToken {f : World → PinUvAuthToken} {slot : Slot} :
    Touches [.token] (modify fun w => w.setToken slot (f w)) :=
  frames_modify fun p hp _ => by cases p <;> first | rfl | simp at hp

theorem touches_modifyTokenState {f : TokenState → TokenState} {slot : Slot} :
    Touches [.token] (modify fun w => w.modifyTokenState slot f) := touches_setToken

theorem touches_lockDevicePermanently :
    Touches [.token, .pinState, .stateFile, .journal] (lockDevicePermanently P) :=
  Frames.bind (frames_modify fun p hp _ => by cases p <;> first | rfl | simp at hp)
    fun _ => touches_authenticatorWriteState.mono (by decide)

theorem touches_decrementPinAttempts :
    Touches [.boot, .token, .pinState, .stateFile, .journal] (decrementPinAttempts P) := by
  unfold decrementPinAttempts
  refine Frames.bind (frames_modify fun p hp w => ?_) fun _ => frames_get.bind fun w => ?_
  · by_cases h : 0 < w.pinBootAttemptsLeft
    · simp only [if_pos h]
      cases p <;> first | rfl | simp at hp
    · simp only [if_neg h]
  · refine frames_ite (Frames.bind (frames_modify fun p hp _ => ?_) fun _ => ?_) frames_pure
    · cases p <;> first | rfl | simp at hp
    · exact (touches_authenticatorWriteState.mono (by decide)).bind fun _ => frames_get.bind fun _ =>
        frames_ite (touches_lockDevicePermanently.mono (by decide)) frames_pure

theorem touches_resetPinAttempts : Touches [.boot, .pinState, .stateFile, .journal] (resetPinAttempts P) := by
  unfold resetPinAttempts
  refine frames_get.bind fun w => frames_ite (Frames.bind (frames_modify fun p hp _ => ?_) fun _ => ?_)
    frames_pure
  · cases p <;> first | rfl | simp at hp
  · exact touches_authenticatorWriteState.mono (by decide)

theorem touches_ecdh {pub : Bytes 64} {proto : UInt8} : Touches [.inputs] (ecdh P pub proto) := by
  unfold ecdh
  refine frames_get.bind fun _ => touches_drawing.bind fun r => ?_
  cases r with
  | some point => exact frames_pure
  | none => exact frames_throw

theorem touches_encryptPinUvAuthToken {key : Bytes 32} {proto : UInt8} :
    Touches [.inputs] (encryptPinUvAuthToken P key proto) :=
  frames_get.bind fun _ => frames_ite frames_pure
    (touches_ctapGenerateRng.bind fun _ => frames_pure)

theorem touches_drawScalar {fuel : Nat} : Touches [.inputs] (drawScalar fuel) := by
  induction fuel with
  | zero => exact frames_throw
  | succ fuel ih => exact touches_ctapGenerateRng.bind fun _ => frames_ite frames_pure ih

theorem touches_regenerateKeyAgreement {slot : Slot} :
    Touches [.inputs, .token] (regenerateKeyAgreement slot) :=
  frames_get.bind fun _ => (touches_drawScalar.mono (by decide)).bind fun _ =>
    touches_setToken.mono (by decide)

theorem touches_resetPinUvAuthToken {slot : Slot} :
    Touches [.inputs, .token] (resetPinUvAuthToken slot) :=
  (touches_ctapGenerateRng.mono (by decide)).bind fun _ => touches_setToken.mono (by decide)

theorem touches_clientPinInitialize : Touches [.inputs, .token] clientPinInitialize :=
  touches_regenerateKeyAgreement.bind fun _ => touches_regenerateKeyAgreement.bind fun _ =>
    touches_resetPinUvAuthToken.bind fun _ => touches_resetPinUvAuthToken

theorem touches_beginUsingPinUvAuthToken {b : Bool} {slot : Slot} {perms : UInt8} :
    Touches [.inputs, .token, .usage] (beginUsingPinUvAuthToken b slot perms) :=
  (touches_millis.mono (by decide)).bind fun _ => (touches_modifyTokenState.mono (by decide)).bind fun _ =>
    (touches_emit_usage rfl).mono (by decide)

theorem touches_associatePermissionsRpId {rp : List UInt8} {slot : Slot} :
    Touches [.token] (associatePermissionsRpId P rp slot) :=
  frames_ite frames_pure touches_modifyTokenState

theorem touches_clearInUse {slot : Slot} {f : TokenState → TokenState} :
    Touches [.token] (clearInUse slot f) :=
  frames_modify fun p hp w => by
    by_cases h : (w.token slot).state.inUse
    · simp only [if_pos h]
      cases p <;> first | rfl | simp at hp
    · simp only [if_neg h]

theorem touches_onlyIf {S : List Part} {c : Prop} [Decidable c] {m : CtapM Unit} (h : Touches S m) :
    Touches S (onlyIf c m) := frames_ite h frames_pure

theorem touches_usageTimeObserver {slot : Slot} :
    Touches [.inputs, .token, .usage] (usageTimeObserver slot) := by
  refine frames_get.bind fun _ => frames_ite ?_ ((touches_emit_usage rfl).mono (by decide))
  refine (touches_millis.mono (by decide)).bind fun now =>
    ((touches_emit_usage rfl).mono (by decide)).bind fun _ => frames_get.bind fun _ => ?_
  refine (touches_onlyIf (touches_modifyTokenState.mono (by decide))).bind fun _ => ?_
  refine frames_get.bind fun _ => ?_
  refine (touches_onlyIf (touches_clearInUse.mono (by decide))).bind fun _ => ?_
  refine frames_get.bind fun _ => ?_
  exact frames_ite (touches_modifyTokenState.mono (by decide))
    (touches_modifyTokenState.mono (by decide))

theorem touches_clientPinVerifyAuthEx {param : Bytes 32} {buf : List UInt8} {proto : UInt8} :
    Touches [.inputs, .token, .verified, .usage] (clientPinVerifyAuthEx P param buf proto) :=
  (touches_usageTimeObserver.mono (by decide)).bind fun _ => frames_get.bind fun _ =>
    touches_failIf.bind fun _ => frames_get.bind fun _ => touches_failIf.bind fun _ =>
      touches_emit_tokenVerified.mono (by decide)

theorem touches_verifyAgainstStoredPin {h : Bytes 16} :
    Touches [.pinChecks, .journal] (verifyAgainstStoredPin P h) :=
  frames_get.bind fun _ => (touches_emit (by simp [Event.parts])).bind fun _ => frames_pure

theorem touches_pinMismatch {α : Type} {proto : UInt8} :
    Touches [.inputs, .boot, .token, .pinState, .stateFile, .journal] (pinMismatch P proto : CtapM α) :=
  (touches_regenerateKeyAgreement.mono (by decide)).bind fun _ =>
    (touches_decrementPinAttempts.mono (by decide)).bind fun _ => frames_get.bind fun _ =>
      touches_failIf.bind fun _ => frames_get.bind fun _ => touches_failIf.bind fun _ =>
        touches_failWith

theorem touches_storePin {pin : List UInt8} : Touches [.inputs, .pinState, .stateFile, .journal] (storePin P pin) :=
  (touches_ctapGenerateRng.mono (by decide)).bind fun _ =>
    Frames.bind (frames_modify fun p hp _ => by cases p <;> first | rfl | simp at hp)
      fun _ => touches_authenticatorWriteState.mono (by decide)

/-- What a command with a PIN in it may change. -/
def pinParts : List Part :=
  [.inputs, .boot, .token, .pinState, .stateFile, .journal, .pinChecks, .issued, .usage]

theorem touches_verifyCurrentPin {h k : Bytes 32} {proto : UInt8} :
    Touches pinParts (verifyCurrentPin P h k proto) :=
  touches_ctapCheck.bind fun _ => (touches_verifyAgainstStoredPin.mono (by decide)).bind fun _ =>
    frames_ite
      ((touches_resetPinAttempts.mono (by decide)).bind fun _ =>
        (touches_resetPinUvAuthToken.mono (by decide)).bind fun _ =>
          touches_resetPinUvAuthToken.mono (by decide))
      (touches_pinMismatch.mono (by decide))

theorem touches_updatePinIfVerified {n : Bytes 80} {len : UInt8} {pub : Bytes 64} {a : Bytes 32}
    {h : Option (Bytes 32)} {proto : UInt8} :
    Touches pinParts (updatePinIfVerified P n len pub a h proto) := by
  refine touches_failIf.bind fun _ => (touches_ecdh.mono (by decide)).bind fun (k, _) =>
    touches_failIf.bind fun _ => touches_ctapCheck.bind fun _ => touches_failIf.bind fun _ =>
      Frames.bind ?_ fun _ => touches_storePin.mono (by decide)
  cases h with
  | none => exact frames_pure
  | some h => exact frames_get.bind fun _ => touches_onlyIf touches_verifyCurrentPin

/-- Without a current PIN nothing is compared. -/
theorem touches_updatePinIfVerified_none {n : Bytes 80} {len : UInt8} {pub : Bytes 64} {a : Bytes 32}
    {proto : UInt8} :
    Touches [.inputs, .pinState, .stateFile, .journal] (updatePinIfVerified P n len pub a none proto) :=
  touches_failIf.bind fun _ => (touches_ecdh.mono (by decide)).bind fun (k, _) =>
    touches_failIf.bind fun _ => touches_ctapCheck.bind fun _ => touches_failIf.bind fun _ =>
      Frames.bind frames_pure fun _ => touches_storePin.mono (by decide)

theorem touches_addEncPinUvAuthToken {pub : Bytes 64} {h : Bytes 32} {proto perms : UInt8}
    {rp : List UInt8} : Touches pinParts (addEncPinUvAuthToken P pub h proto perms rp) :=
  (touches_ecdh.mono (by decide)).bind fun (k, _) => touches_ctapCheck.bind fun _ =>
    (touches_verifyAgainstStoredPin.mono (by decide)).bind fun _ =>
      frames_ite
        ((touches_resetPinAttempts.mono (by decide)).bind fun _ =>
          (touches_resetPinUvAuthToken.mono (by decide)).bind fun _ =>
          (touches_resetPinUvAuthToken.mono (by decide)).bind fun _ =>
          (touches_beginUsingPinUvAuthToken.mono (by decide)).bind fun _ =>
          (touches_associatePermissionsRpId.mono (by decide)).bind fun _ =>
          frames_get.bind fun _ => (touches_emit_tokenIssued.mono (by decide)).bind fun _ =>
            touches_encryptPinUvAuthToken.mono (by decide))
        (touches_pinMismatch.mono (by decide))

theorem touches_getPinRetries : Touches [] getPinRetries :=
  frames_get.bind fun _ => touches_encode.bind fun _ => touches_encode.bind fun _ =>
    touches_encode.bind fun _ => touches_encode.bind fun _ => touches_encode.bind fun _ =>
      touches_encode.bind fun _ => frames_pure

theorem touches_getKeyAgreement {proto : UInt8} :
    Touches [.inputs, .token] (getKeyAgreement P proto) :=
  touches_encode.bind fun _ => touches_encode.bind fun _ => frames_get.bind fun _ =>
    (touches_onlyIf (frames_get.bind fun _ => (touches_drawing.mono (by decide)).bind fun _ =>
      touches_setToken.mono (by decide))).bind fun _ => frames_get.bind fun _ =>
        touches_encode.bind fun _ => touches_encode.bind fun _ => frames_pure

theorem touches_issueToken {CP : ClientPin} {perms : UInt8} {rp : List UInt8} :
    Touches pinParts (issueToken P CP perms rp) :=
  touches_encode.bind fun _ => touches_encode.bind fun _ => touches_addEncPinUvAuthToken.bind fun _ =>
    touches_encode.bind fun _ => touches_encode.bind fun _ => frames_pure

theorem touches_setPin {CP : ClientPin} : Touches [.inputs, .pinState, .stateFile, .journal] (setPin P CP) :=
  touches_failIf.bind fun _ => frames_get.bind fun _ => touches_failIf.bind fun _ =>
    touches_updatePinIfVerified_none.bind fun _ => frames_pure

theorem touches_changePin {CP : ClientPin} : Touches pinParts (changePin P CP) :=
  frames_get.bind fun _ => touches_failIf.bind fun _ => touches_failIf.bind fun _ =>
    touches_updatePinIfVerified.bind fun _ => frames_pure

theorem touches_getPinToken {CP : ClientPin} : Touches pinParts (getPinToken P CP) :=
  frames_get.bind fun _ => touches_failIf.bind fun _ => touches_failIf.bind fun _ =>
    touches_failIf.bind fun _ => touches_issueToken

theorem touches_getPinUvAuthTokenUsingPinWithPermissions {CP : ClientPin} :
    Touches pinParts (getPinUvAuthTokenUsingPinWithPermissions P CP) :=
  frames_get.bind fun _ => touches_failIf.bind fun _ => touches_failIf.bind fun _ =>
    touches_failIf.bind fun _ => touches_failIf.bind fun _ => touches_failIf.bind fun _ =>
      touches_issueToken

theorem touches_ctapClientPin {request : List UInt8} :
    Touches pinParts (ctapClientPin P request) :=
  touches_ctapCheck.bind fun _ => touches_failIf.bind fun _ => touches_failIf.bind fun _ =>
    frames_ite (touches_getPinRetries.mono (by decide)) <|
    frames_ite (touches_getKeyAgreement.mono (by decide)) <|
    frames_ite (touches_setPin.mono (by decide)) <|
    frames_get.bind fun _ => touches_failIf.bind fun _ => frames_get.bind fun _ =>
    touches_failIf.bind fun _ =>
    frames_ite touches_changePin <| frames_ite touches_getPinToken <|
    frames_ite touches_getPinUvAuthTokenUsingPinWithPermissions touches_failWith

end ClientPin

/-! ## Authenticator data -/

section AuthData

variable {P : Platform}

theorem touches_hmacSecretOutput {ext : Extensions} {id : CredentialId} :
    Touches [.inputs, .hmacOutputs] (hmacSecretOutput P ext id) :=
  (touches_ecdh.mono (by decide)).bind fun (_, _) => touches_failIf.bind fun _ => frames_get.bind fun _ =>
    (touches_emit (by simp [Event.parts])).bind fun _ => frames_pure

theorem touches_ctapExtensionsEncodeOutput {ext : Extensions} {id : CredentialId} {size : Nat} :
    Touches [.inputs, .hmacOutputs] (ctapExtensionsEncodeOutput P ext id size) :=
  Frames.bind (frames_ite touches_hmacSecretOutput.map frames_pure)
    fun _ => frames_ite frames_pure touches_encode

/-- The part in which a buffer for authenticator data lies. -/
def AuthBuf.parts : AuthBuf → List Part
  | .assertion => [.ga]
  | .scratch => []

theorem touches_putHead {buf : AuthBuf} {head : AuthDataHeader} :
    Touches buf.parts (putHead buf head) := by
  cases buf with
  | assertion => exact frames_modify fun p hp _ => by cases p <;> first | rfl | simp [AuthBuf.parts] at hp
  | scratch => exact frames_pure

theorem touches_makeAuthDataHeader (buf : AuthBuf) {h : Bytes 32} :
    Touches (buf.parts ++ [.inputs, .counter, .assertionEvents]) (makeAuthDataHeader buf h) := by
  have hput : ∀ head, Touches (buf.parts ++ [.inputs, .counter, .assertionEvents]) (putHead buf head) :=
    fun head => touches_putHead.mono (List.subset_append_left _ _)
  have hrest {S : List Part} {α : Type} {m : CtapM α} (h : Touches S m)
      (hS : S ⊆ [.inputs, .counter, .assertionEvents]) :
      Touches (buf.parts ++ [.inputs, .counter, .assertionEvents]) m :=
    h.mono fun _ hp => List.mem_append_right _ (hS hp)
  exact frames_get.bind fun _ => (hput _).bind fun _ =>
    (hrest touches_ctapAuthDataUpdateCount (by decide)).bind fun _ => (hput _).bind fun _ =>
    (hrest touches_ctap2UserPresenceTest (by decide)).bind fun _ =>
    (touches_onlyIf touches_checkStatus).bind fun _ =>
    frames_get.bind fun _ => (hput _).bind fun _ => frames_pure

theorem touches_storeResidentKey {rp : RpId} {h : Bytes 32} {id : CredentialId} {u : UserEntity} :
    Touches [.inputs, .rkFiles, .rkChanges, .rkStored, .stateFile, .journal] (storeResidentKey P rp h id u) :=
  frames_get.bind fun _ => touches_failIf.bind fun _ =>
    (touches_ctapGenerateRng.mono (by decide)).bind fun _ => frames_get.bind fun _ =>
      touches_ctapOverwriteRk.mono (by decide)

theorem touches_makeAttestedData {rp : RpId} {h : Bytes 32} {l : Bytes 16} {n : UInt32} {c : CredInfo}
    {e : Extensions} :
    Touches [.inputs, .rkFiles, .rkChanges, .rkStored, .stateFile, .journal] (makeAttestedData P rp h l n c e) :=
  frames_get.bind fun _ => (touches_ctapGenerateRng.mono (by decide)).bind fun _ =>
    (touches_onlyIf touches_storeResidentKey).bind fun _ =>
      (touches_coseKeyGenerate.mono (by decide)).bind fun _ => frames_pure

/-- The authenticator data of an assertion makes no credential. -/
theorem touches_ctapMakeAuthData_none {rp : RpId} {h : Bytes 32} {l : Bytes 16} {e : Extensions} :
    Touches [.ga, .inputs, .counter, .assertionEvents]
      (ctapMakeAuthData P .assertion rp h l none e) :=
  (touches_makeAuthDataHeader .assertion).bind fun (_, _) => frames_pure

theorem touches_ctapMakeAuthData_some {rp : RpId} {h : Bytes 32} {l : Bytes 16} {c : CredInfo}
    {e : Extensions} :
    Touches [.inputs, .counter, .assertionEvents, .rkFiles, .rkChanges, .rkStored, .stateFile, .journal]
      (ctapMakeAuthData P .scratch rp h l (some c) e) :=
  ((touches_makeAuthDataHeader .scratch).mono (by decide)).bind fun (_, _) =>
    (touches_makeAttestedData.mono (by decide)).bind fun _ => frames_pure

end AuthData

/-! ## Assertions -/

section Assertion

variable {P : Platform}

/-- A change to `getAssertionState`. -/
theorem touches_modifyGa {f : World → GetAssertionState} :
    Touches [.ga] (modify fun w => { w with ga := f w }) :=
  frames_modify fun p hp _ => by cases p <;> first | rfl | simp at hp

theorem touches_setCreds {c : Creds} : Touches [.ga] (setCreds c) := touches_modifyGa

theorem touches_parseDescriptorAt {i : Nat} {arr : CborValue} :
    Touches [.ga] (parseDescriptorAt i arr) := by
  unfold parseDescriptorAt
  refine frames_get.bind fun w => ?_
  dsimp only
  cases ctapParsePubkeyCredentialDescriptor arr {} with
  | ok u cred => exact touches_setCreds
  | error e cred => exact touches_setCreds.bind fun _ => frames_throw

theorem touches_allowListItems {n i : Nat} {arr : CborValue} :
    Touches [.ga] (allowListItems n i arr) := by
  induction n generalizing i arr with
  | zero => exact frames_pure
  | succ n ih =>
    exact touches_failIf.bind fun _ => touches_parseDescriptorAt.bind fun _ =>
      touches_ctapCheck.bind fun _ => ih

theorem touches_parseAllowListCredentials {it : CborValue} :
    Touches [.ga] (parseAllowListCredentials it) :=
  touches_failIf.bind fun _ => touches_ctapCheck.bind fun _ => touches_ctapCheck.bind fun _ =>
    touches_allowListItems

/-- One member of the request. -/
theorem touches_getAssertionStep {GA : GetAssertion} {key : Int} {it : CborValue} :
    Touches [.ga] (getAssertionStep GA key it) :=
  frames_ite (touches_parseAllowListCredentials.bind fun _ => frames_pure) touches_ctapCheck

theorem touches_getAssertionMembers {n : Nat} {s : CtapStatus} {GA : GetAssertion} {it : CborValue} :
    Touches [.ga] (getAssertionMembers n s GA it) := by
  induction n generalizing s GA it with
  | zero => exact frames_pure
  | succ n ih =>
    exact touches_ctapCheck.bind fun (_, _) => touches_getAssertionStep.bind fun _ =>
      touches_checkStatus.bind fun _ => touches_ctapCheck.bind fun _ => ih

theorem touches_parseGetAssertionRequest {request : List UInt8} :
    Touches [.ga] (parseGetAssertionRequest request) :=
  touches_ctapCheck.bind fun _ => touches_ctapCheck.bind fun (_, _) => frames_get.bind fun _ =>
    touches_getAssertionMembers

theorem touches_buildFilteredCredentialList {GA : GetAssertion} {h : Bytes 32} {l : Bytes 16} :
    Touches [.ga, .assertionEvents] (buildFilteredCredentialList P GA h l) :=
  frames_get.bind fun _ => (touches_setCreds.mono (by decide)).bind fun _ =>
    ((touches_emit_assertion rfl).mono (by decide)).bind fun _ => frames_pure

theorem touches_encodeAssertionResponse {map : Encoder} {cred : CredentialDescriptor}
    {a : List UInt8} {h : Bytes 32} :
    Touches [.inputs, .signatures, .assertionEvents] (encodeAssertionResponse P map cred a h) :=
  touches_encode.bind fun _ => touches_encode.bind fun _ => touches_encode.bind fun _ =>
    touches_encode.bind fun _ => frames_get.bind fun _ =>
    (touches_ctapSignData.mono (by decide)).bind fun _ =>
    ((touches_emit_assertion rfl).mono (by decide)).bind fun _ => touches_encode.bind fun _ =>
    touches_encode.bind fun _ => frames_ite
      (touches_encode.bind fun _ => frames_get.bind fun _ => touches_encode) frames_pure

theorem touches_saveCredentialList {h : Bytes 32} {n : Nat} {e : Extensions} :
    Touches [.ga] (saveCredentialList h n e) :=
  touches_failIf.bind fun _ => (touches_onlyIf touches_modifyGa).bind fun _ => touches_modifyGa

theorem touches_verifyGetAssertionAuth {GA : GetAssertion} {h : Bytes 32} :
    Touches [.inputs, .token, .verified, .usage, .ga] (verifyGetAssertionAuth P GA h) :=
  frames_ite
    (touches_failIf.bind fun _ => (touches_clientPinVerifyAuthEx.mono (by decide)).bind fun _ =>
      frames_get.bind fun _ => touches_failIf.bind fun _ => frames_get.bind fun _ =>
      touches_failIf.bind fun _ => frames_get.bind fun _ => touches_failIf.bind fun _ =>
      touches_modifyGa.mono (by decide))
    (touches_modifyGa.mono (by decide))

theorem touches_clearPinFlags {slot : Slot} : Touches [.token] (clearPinFlags slot) :=
  touches_clearInUse.bind fun _ => touches_clearInUse.bind fun _ => touches_clearInUse

theorem touches_makeAssertionAuthData {GA : GetAssertion} {h : Bytes 32} {l : Bytes 16} :
    Touches [.upDisabled, .ga, .inputs, .counter, .assertionEvents, .token]
      (makeAssertionAuthData P GA h l) :=
  (touches_deviceDisableUp.mono (by decide)).bind fun _ =>
    ((touches_ctapMakeAuthData_none.map.mono (by decide)).tryCatch fun _ =>
      (touches_deviceDisableUp.mono (by decide)).bind fun _ => frames_throw).bind fun _ =>
    (touches_deviceDisableUp.mono (by decide)).bind fun _ =>
    (touches_onlyIf (touches_clearPinFlags.mono (by decide))).bind fun _ => frames_get.bind fun _ =>
    touches_modifyGa.mono (by decide)

theorem touches_selectByTouch : Touches [.inputs, .assertionEvents] selectByTouch :=
  touches_requireUserPresence.bind fun _ => frames_get.bind fun _ => touches_failWith

theorem touches_hideName {i : Nat} : Touches [.ga] (hideName i) :=
  frames_get.bind fun _ => touches_setCreds

theorem touches_encodeCount {map : Encoder} {n : Nat} : Touches [] (encodeCount map n) :=
  frames_ite (touches_encode.bind fun _ => touches_encode) frames_pure

theorem touches_assertionExtensions {e : Extensions} :
    Touches [.inputs, .hmacOutputs, .ga] (assertionExtensions P e) :=
  frames_get.bind fun _ => (touches_ctapExtensionsEncodeOutput.mono (by decide)).bind fun _ =>
    (touches_modifyGa.mono (by decide)).bind fun _ =>
    (touches_onlyIf (touches_modifyGa.mono (by decide))).bind fun _ => frames_pure

theorem touches_ctapGetAssertion {request : List UInt8} :
    Touches [.inputs, .token, .verified, .usage, .hmacOutputs, .signatures, .ga, .assertionEvents, .upDisabled, .counter]
      (ctapGetAssertion P request) :=
  (touches_parseGetAssertionRequest.mono (by decide)).bind fun _ =>
    (touches_onlyIf (touches_selectByTouch.mono (by decide))).bind fun _ =>
    touches_failIf.bind fun _ => frames_get.bind fun _ =>
    (touches_verifyGetAssertionAuth.mono (by decide)).bind fun _ =>
    (touches_buildFilteredCredentialList.mono (by decide)).bind fun _ =>
    touches_failIf.bind fun _ => frames_get.bind fun _ => touches_encode.bind fun _ =>
    frames_get.bind fun _ => (touches_onlyIf (touches_hideName.mono (by decide))).bind fun _ =>
    (touches_makeAssertionAuthData.mono (by decide)).bind fun _ =>
    (touches_assertionExtensions.mono (by decide)).bind fun _ => frames_get.bind fun _ =>
    (touches_encodeAssertionResponse.mono (by decide)).bind fun _ =>
    (touches_encodeCount.mono (by decide)).bind fun _ => touches_encode.bind fun _ =>
    (touches_saveCredentialList.mono (by decide)).bind fun _ => frames_pure

theorem touches_getNextCredential : Touches [.ga] getNextCredential :=
  frames_get.bind fun _ => frames_ite (touches_modifyGa.bind fun _ => frames_pure) frames_pure

theorem touches_nextExtensions : Touches [.inputs, .hmacOutputs, .ga] (nextExtensions P) :=
  frames_get.bind fun _ => Frames.tryCatch
    ((touches_ctapExtensionsEncodeOutput.mono (by decide)).bind fun _ =>
      (touches_modifyGa.mono (by decide)).bind fun _ => (touches_modifyGa.mono (by decide)).bind fun _ =>
      frames_pure)
    fun e => by cases e <;> first | exact frames_pure | exact frames_throw

theorem touches_ctapGetNextAssertion :
    Touches [.ga, .inputs, .hmacOutputs, .signatures, .counter, .assertionEvents] (ctapGetNextAssertion P) := by
  refine (touches_getNextCredential.mono (by decide)).bind fun i => ?_
  cases i with
  | none => exact touches_failWith
  | some i =>
    exact (touches_ctapAuthDataUpdateCount.mono (by decide)).bind fun _ =>
      (touches_modifyGa.mono (by decide)).bind fun _ => frames_get.bind fun _ =>
      touches_encode.bind fun _ => (touches_onlyIf (touches_hideName.mono (by decide))).bind fun _ =>
      (touches_nextExtensions.mono (by decide)).bind fun _ => frames_get.bind fun _ =>
      (touches_encodeAssertionResponse.mono (by decide)).bind fun _ => touches_encode.bind fun _ =>
      frames_pure

end Assertion

/-! ## New credentials -/

section MakeCredential

variable {P : Platform}

theorem touches_excludeLoop {h : Bytes 32} {l : Bytes 16} {slot : Slot} {n : Nat}
    {cred : CredentialDescriptor} {it : CborValue} :
    Touches [.inputs, .assertionEvents] (excludeLoop P h l slot n cred it) := by
  induction n generalizing cred it with
  | zero => exact frames_pure
  | succ n ih =>
    refine touches_ctapCheck.bind fun cred => frames_get.bind fun w => ?_
    rcases excludeCheck P w h l slot cred with _ | _ | _
    · exact ih
    · exact touches_ctapCheck.bind fun _ => ih
    · exact touches_requireUserPresence.bind fun _ => touches_failWith

theorem touches_checkExcludeList {MC : MakeCredential} {h : Bytes 32} {l : Bytes 16} :
    Touches [.inputs, .assertionEvents] (checkExcludeList P MC h l) := by
  unfold checkExcludeList
  cases MC.excludeList with
  | none => exact frames_pure
  | some it => exact frames_get.bind fun _ => touches_excludeLoop

theorem touches_cborEncodeAttestationStatement {map : Encoder} {sig : List UInt8} :
    Touches [] (cborEncodeAttestationStatement map sig) := by
  refine touches_encode.bind fun _ => frames_get.bind fun _ => frames_ite
    (frames_get.bind fun w => ?_) (touches_encode.bind fun _ => touches_encode)
  cases attestationReadCert w with
  | none => exact touches_failWith
  | some cert =>
    exact touches_encode.bind fun _ => touches_encode.bind fun _ => touches_encode.bind fun _ =>
      touches_encode.bind fun _ => touches_encode.bind fun _ => touches_encode.bind fun _ =>
      touches_encode.bind fun _ => touches_encode.bind fun _ => touches_encode.bind fun _ =>
      touches_encode

theorem touches_attestationSignature {a : List UInt8} {h : Bytes 32} :
    Touches [.inputs, .signatures] (attestationSignature P a h) := by
  refine frames_get.bind fun w => ?_
  rcases w.attestationKey with _ | ⟨k, n⟩
  · exact frames_pure
  · exact touches_ctapSignData

theorem touches_verifyMakeCredentialAuth {MC : MakeCredential} :
    Touches [.inputs, .token, .verified, .usage] (verifyMakeCredentialAuth P MC) :=
  frames_get.bind fun _ => frames_ite
    (touches_failIf.bind fun _ => touches_clientPinVerifyAuthEx.bind fun _ =>
      frames_get.bind fun _ => touches_failIf.bind fun _ => frames_get.bind fun _ => touches_failIf)
    frames_pure

theorem touches_makeCredentialAuthData {MC : MakeCredential} {h : Bytes 32} {l : Bytes 16} :
    Touches [.inputs, .hmacOutputs, .counter, .assertionEvents, .rkFiles, .rkChanges, .rkStored, .stateFile, .journal,
      .token]
      (makeCredentialAuthData P MC h l) :=
  (touches_ctapMakeAuthData_some.mono (by decide)).bind fun (_, _) =>
    (touches_clearPinFlags.mono (by decide)).bind fun _ =>
    (touches_ctapExtensionsEncodeOutput.mono (by decide)).bind fun _ => frames_pure

theorem touches_ctapMakeCredential {request : List UInt8} :
    Touches [.inputs, .token, .verified, .usage, .hmacOutputs, .signatures, .assertionEvents, .counter, .rkFiles,
      .rkChanges, .rkStored, .stateFile, .journal]
      (ctapMakeCredential P request) :=
  touches_ctapCheck.bind fun _ =>
    (touches_onlyIf (touches_selectByTouch.mono (by decide))).bind fun _ =>
    touches_failIf.bind fun _ => (touches_verifyMakeCredentialAuth.mono (by decide)).bind fun _ =>
    touches_failIf.bind fun _ => frames_get.bind fun _ => frames_get.bind fun _ =>
    frames_get.bind fun _ => touches_failIf.bind fun _ =>
    (touches_checkExcludeList.mono (by decide)).bind fun _ =>
    touches_encode.bind fun _ => touches_encode.bind fun _ => frames_get.bind fun _ =>
    touches_encode.bind fun _ => (touches_makeCredentialAuthData.mono (by decide)).bind fun _ =>
    touches_encode.bind fun _ => touches_encode.bind fun _ =>
    (touches_attestationSignature.mono (by decide)).bind fun _ =>
    (touches_cborEncodeAttestationStatement.mono (by decide)).bind fun _ =>
    touches_encode.bind fun _ => frames_pure

end MakeCredential

/-! ## Credential management -/

section CredentialManagement

variable {P : Platform}

theorem touches_verifyPinAuthForCredentialManagement {CM : CredMgmt} :
    Touches [.inputs, .token, .verified, .usage] (verifyPinAuthForCredentialManagement P CM) :=
  frames_ite frames_pure
    (touches_failIf.bind fun _ => touches_failIf.bind fun _ => touches_clientPinVerifyAuthEx.bind fun _ =>
      frames_get.bind fun _ => touches_failIf.bind fun _ => frames_ite
        (frames_get.bind fun _ => touches_failIf) (frames_get.bind fun _ => touches_failIf))

/-- A change to the enumeration state. -/
theorem touches_modifyCm {f : World → CredMgmtState} :
    Touches [.cm] (modify fun w => { w with cm := f w }) :=
  frames_modify fun p hp _ => by cases p <;> first | rfl | simp at hp

theorem touches_setCm {cm : CredMgmtState} : Touches [.cm] (setCm cm) := touches_modifyCm

theorem touches_clearState : Touches [.cm] clearState := touches_modifyCm

theorem touches_initState {cmd : UInt8} : Touches [.inputs, .cm] (initState cmd) :=
  (touches_millis.mono (by decide)).bind fun _ => touches_setCm.mono (by decide)

theorem touches_checkState {cmd : UInt8} : Touches [.inputs, .cm] (checkState cmd) :=
  frames_get.bind fun _ => frames_ite frames_pure <|
    frames_ite ((touches_clearState.mono (by decide)).bind fun _ => frames_pure) <|
    (touches_millis.mono (by decide)).bind fun _ => frames_ite
      ((touches_clearState.mono (by decide)).bind fun _ => frames_pure)
      ((touches_setCm.mono (by decide)).bind fun _ => frames_pure)

theorem touches_scanCount {l : Bytes 16} : Touches [.cm] (scanCount l) :=
  frames_get.bind fun _ => touches_setCm.bind fun _ => frames_pure

theorem touches_scanNext {l : Bytes 16} : Touches [.cm] (scanNext P l) := by
  refine frames_get.bind fun w => ?_
  dsimp only
  split
  · exact touches_setCm.bind fun _ => frames_pure
  · exact touches_setCm.bind fun _ => frames_pure

theorem touches_getCountUniqueRelyingParties : Touches [.cm] getCountUniqueRelyingParties :=
  frames_get.bind fun _ => touches_setCm.bind fun _ => frames_pure

theorem touches_getNextUniqueRp : Touches [.cm] (getNextUniqueRp P) :=
  frames_get.bind fun _ => touches_setCm.bind fun _ => frames_ite frames_pure <|
    frames_ite frames_pure <| touches_setCm.bind fun _ => frames_pure

theorem touches_cborEncodeCredentialMetadata : Touches [] cborEncodeCredentialMetadata :=
  frames_get.bind fun _ => touches_encode.bind fun _ => touches_encode.bind fun _ =>
    touches_encode.bind fun _ => touches_encode.bind fun _ => touches_encode.bind fun _ =>
    touches_encode.bind fun _ => frames_pure

theorem touches_cborEncodeEnumerateCredential {rk : ResidentKey} {n : Nat} :
    Touches [.inputs] (cborEncodeEnumerateCredential P rk n) :=
  frames_get.bind fun _ => touches_encode.bind fun _ => touches_encode.bind fun _ =>
    touches_encode.bind fun _ => touches_encode.bind fun _ => touches_encode.bind fun _ =>
    touches_encode.bind fun _ => touches_coseKeyGenerate.bind fun _ => touches_encode.bind fun _ =>
    touches_encode.bind fun _ => touches_encode.bind fun _ => touches_encode.bind fun _ => frames_pure

theorem touches_cborEncodeEnumerateRp {rk : ResidentKey} {n : Nat} :
    Touches [] (cborEncodeEnumerateRp rk n) :=
  touches_encode.bind fun _ => touches_encode.bind fun _ => touches_encode.bind fun _ =>
    touches_encode.bind fun _ => touches_encode.bind fun _ => touches_encode.bind fun _ =>
    touches_encode.bind fun _ => touches_encode.bind fun _ => touches_encode.bind fun _ =>
    touches_encode.bind fun _ => touches_encode.bind fun _ => touches_encode.bind fun _ => frames_pure

theorem touches_endEnumeration {α : Type} {s : CtapError} :
    Touches [.cm] (endEnumeration s : CtapM α) :=
  touches_clearState.bind fun _ => touches_failWith

theorem touches_enumerateRpsBegin : Touches [.inputs, .cm] (enumerateRpsBegin P) :=
  touches_initState.bind fun _ => (touches_getCountUniqueRelyingParties.mono (by decide)).bind fun _ =>
    (touches_onlyIf (touches_endEnumeration.mono (by decide))).bind fun _ =>
    (touches_getNextUniqueRp.mono (by decide)).bind fun r => by
      cases r with
      | none => exact touches_endEnumeration.mono (by decide)
      | some rk => exact touches_cborEncodeEnumerateRp.mono (by decide)

theorem touches_enumerateRpsGetNextRp : Touches [.inputs, .cm] (enumerateRpsGetNextRp P) :=
  touches_checkState.bind fun _ => touches_failIf.bind fun _ =>
    (touches_getNextUniqueRp.mono (by decide)).bind fun r => by
      cases r with
      | none => exact touches_endEnumeration.mono (by decide)
      | some rk => exact touches_cborEncodeEnumerateRp.mono (by decide)

theorem touches_enumerateCredentialsBegin {params : SubCommandParams} :
    Touches [.inputs, .cm] (enumerateCredentialsBegin P params) :=
  touches_initState.bind fun _ => touches_failIf.bind fun _ =>
    (touches_modifyCm.mono (by decide)).bind fun _ => frames_get.bind fun _ =>
    (touches_scanCount.mono (by decide)).bind fun _ =>
    (touches_onlyIf (touches_endEnumeration.mono (by decide))).bind fun _ =>
    (touches_scanNext.mono (by decide)).bind fun r => by
      cases r with
      | none => exact touches_endEnumeration.mono (by decide)
      | some rk => exact touches_cborEncodeEnumerateCredential.mono (by decide)

theorem touches_enumerateCredentialsGetNextCredential :
    Touches [.inputs, .cm] (enumerateCredentialsGetNextCredential P) :=
  touches_checkState.bind fun _ => touches_failIf.bind fun _ => frames_get.bind fun _ =>
    (touches_scanNext.mono (by decide)).bind fun r => by
      cases r with
      | none => exact touches_endEnumeration.mono (by decide)
      | some rk => exact touches_cborEncodeEnumerateCredential.mono (by decide)

theorem touches_deleteCredential {params : SubCommandParams} :
    Touches [.rkFiles, .rkChanges, .rkStored, .stateFile, .journal] (deleteCredential P params) :=
  touches_failIf.bind fun _ => touches_ctapDeleteRk.bind fun _ => touches_failIf.bind fun _ =>
    frames_pure

theorem touches_findCredential {id : CredentialId} {fuel : Nat} :
    Touches [.cm] (findCredential P id fuel) := by
  induction fuel with
  | zero => exact frames_throw
  | succ fuel ih =>
    refine touches_scanNext.bind fun r => ?_
    cases r with
    | none => exact touches_failWith
    | some rk => exact frames_ite frames_pure ih

theorem touches_updateCredentialUserInfo {id : CredentialId} {u : UserEntity} :
    Touches [.cm, .inputs, .rkFiles, .rkChanges, .rkStored, .stateFile, .journal] (updateCredentialUserInfo P id u) :=
  (touches_clearState.mono (by decide)).bind fun _ => frames_get.bind fun _ =>
    (touches_findCredential.mono (by decide)).bind fun _ => touches_failIf.bind fun _ =>
    (touches_ctapGenerateRng.mono (by decide)).bind fun _ =>
    (touches_ctapOverwriteRk.mono (by decide)).bind fun _ =>
    (touches_clearState.mono (by decide)).bind fun _ => frames_pure

theorem touches_updateUserInformation {params : SubCommandParams} :
    Touches [.cm, .inputs, .rkFiles, .rkChanges, .rkStored, .stateFile, .journal] (updateUserInformation P params) :=
  touches_failIf.bind fun _ => touches_updateCredentialUserInfo

/-- The switch over the sub-commands. -/
theorem touches_credMgmtCommand {CM : CredMgmt} :
    Touches [.inputs, .cm, .rkFiles, .rkChanges, .rkStored, .stateFile, .journal] (credMgmtCommand P CM) := by
  unfold credMgmtCommand
  split
  · exact touches_cborEncodeCredentialMetadata.mono (by decide)
  · exact touches_enumerateRpsBegin.mono (by decide)
  · exact touches_enumerateRpsGetNextRp.mono (by decide)
  · exact touches_enumerateCredentialsBegin.mono (by decide)
  · exact touches_enumerateCredentialsGetNextCredential.mono (by decide)
  · exact touches_deleteCredential.mono (by decide)
  · exact touches_updateUserInformation.mono (by decide)
  · exact touches_failWith

theorem touches_ctapCredentialManagement {request : List UInt8} :
    Touches [.inputs, .token, .verified, .usage, .cm, .rkFiles, .rkChanges, .rkStored, .stateFile, .journal]
      (ctapCredentialManagement P request) :=
  touches_ctapCheck.bind fun _ =>
    (touches_verifyPinAuthForCredentialManagement.mono (by decide)).bind fun _ =>
    touches_credMgmtCommand.mono (by decide)

end CredentialManagement

/-! ## Other commands -/

section Other

variable {P : Platform}

theorem touches_ctapGetInfo : Touches [] ctapGetInfo :=
  frames_get.bind fun _ => touches_encode.bind fun _ => frames_pure

theorem touches_ctapSelection : Touches [.inputs, .assertionEvents] ctapSelection :=
  touches_ctap2UserPresenceTest.bind fun _ => touches_failIf.bind fun _ => frames_pure

theorem touches_ctapStateInit :
    Touches [.inputs, .pinState, .rkStored, .identity, .rkFiles, .rkChanges, .journal] ctapStateInit :=
  (touches_ctapGenerateRng.mono (by decide)).bind fun _ =>
    Frames.bind (frames_modify fun p hp _ => by cases p <;> first | rfl | simp at hp)
      fun _ => touches_ctapResetRk.mono (by decide)

theorem touches_deriveKeys : Touches [.keys] (deriveKeys P) :=
  frames_modify fun p hp _ => by cases p <;> first | rfl | simp at hp

theorem touches_ctapReset :
    Touches [.inputs, .assertionEvents, .pinState, .rkStored, .identity, .rkFiles, .rkChanges, .stateFile, .journal, .ga,
      .token, .keys] (ctapReset P) :=
  (touches_millis.mono (by decide)).bind fun _ => touches_failIf.bind fun _ =>
    (touches_requireUserPresence.mono (by decide)).bind fun _ =>
    (touches_ctapStateInit.mono (by decide)).bind fun _ =>
    (touches_authenticatorWriteState.mono (by decide)).bind fun _ =>
    (touches_modifyGa.mono (by decide)).bind fun _ =>
    (touches_clientPinInitialize.mono (by decide)).bind fun _ =>
    (touches_deriveKeys.mono (by decide)).bind fun _ => frames_pure

end Other

end TkeyFido2
