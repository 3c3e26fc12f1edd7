import TkeyFido2.Ctap.Assertion
import TkeyFido2.Ctap.BootAttempts
import TkeyFido2.Ctap.Unread

/-!
# The state after a reset

`ctap_reset` makes a new state, writes it and clears what the commands hold in memory, but not two static
variables: the attempts of the power cycle and the iteration state of credential management.  Where these are
as after a start, a device that was reset is like one that was started for the first time and that drew the
same random numbers, and it gives the same answers.
-/

namespace TkeyFido2

open Cbor Prog

variable {P : Platform}

/-! ## Devices that agree -/

/-- Two devices agree in what the authenticator keeps, up to the last command and the public keys of the key
agreement. -/
structure World.Agrees (P : Platform) (w w' : World) : Prop where
  state : w.state = w'.state
  stateFile : w.stateFile = stateFileOf P w.state ∧ w'.stateFile = stateFileOf P w'.state
  keys : w.keys = w'.keys
  rkFiles : w.rkFiles = w'.rkFiles
  boot : w.pinBootAttemptsLeft = w'.pinBootAttemptsLeft
  tokens : ∀ s, (w.token s).state = (w'.token s).state
  ga : { w.ga with lastcmd := w'.ga.lastcmd } = w'.ga
  enumeration : w.cm.valid = w'.cm.valid

/-- The device agrees with one of the same version that was started for the first time, and whatever it is
asked next, it answers as that one does. -/
def World.AgreesWithNew (P : Platform) (w : World) : Prop :=
  ∃ new started : World, new.IsNew ∧ Boots P new started ∧ started.appVersion = w.appVersion ∧
    w.Agrees P started ∧ ∀ l : List Query, (∀ s, HasPublicKey P (w.token s).privKey) →
      (∀ q ∈ l, q.inputs.DrawsKeys P) → w.replies P l = started.replies P l

/-- What a first start leaves: no PIN, 8 tries and no resident keys, 3 attempts in the power cycle, no token in
use, no assertion to continue and no enumeration. -/
theorem World.AgreesWithNew.fields {w : World} (h : w.AgreesWithNew P) :
    w.state.isPinSet = 0 ∧ w.state.remainingTries = 8 ∧ w.state.rkStored = 0 ∧ w.pinBootAttemptsLeft = 3 ∧
      (∀ s, (w.token s).state = {}) ∧ { w.ga with lastcmd := 0 } = ({} : GetAssertionState) ∧ w.cm.valid = false ∧
      w.rkFiles = fun _ => [] := by
  obtain ⟨new, started, hnew, hboots, -, hagrees, -⟩ := h
  obtain ⟨salt, hstate, -, hfiles, hst⟩ := hboots.of_new hnew
  have hw := hagrees.state.trans hstate
  refine ⟨?_, ?_, ?_, hagrees.boot.trans hst.boot, fun s => (hagrees.tokens s).trans (hst.idle s), ?_, ?_,
    hagrees.rkFiles.trans hfiles⟩
  · rw [hw]
    rfl
  · rw [hw]
    rfl
  · rw [hw]
    rfl
  · have hga := hagrees.ga
    rw [hst.ga] at hga
    exact hga
  · rw [hagrees.enumeration, hst.cm]

/-- Worlds that agree in what is kept between requests differ in what no answer shows. -/
theorem World.Agrees.withInputs_eq {w v : World} (h : w.Agrees P v) (hcounter : v.counter = w.counter)
    (hup : v.upDisabled = w.upDisabled) (hfixed : v.appVersion = w.appVersion ∧ v.attestationKey = w.attestationKey ∧
      v.attestationCert = w.attestationCert)
    (htoken : ∀ s, v.token s = { w.token s with pubKey := (v.token s).pubKey }) (inputs : Inputs) :
    v.withInputs inputs
      = (w.withInputs inputs).relabel v.ga.lastcmd v.cm fun s => (v.token s).pubKey := by
  obtain ⟨hversion, hkey, hcert⟩ := hfixed
  have hfile : v.stateFile = w.stateFile := by rw [h.stateFile.1, h.stateFile.2, h.state]
  have hv : v.withInputs inputs = { w.withInputs inputs with token := v.token, ga := v.ga, cm := v.cm } := by
    unfold World.withInputs
    rw [h.state, hfile, hcounter, h.rkFiles, h.keys, h.boot, hup, hversion, hkey, hcert]
  rw [hv]
  exact congrArg₂ (fun t g => ({ w.withInputs inputs with token := t, ga := g, cm := v.cm } : World))
    (funext htoken) h.ga.symm

/-! ## The same random numbers -/

/-- The same random numbers are next. -/
def World.SameDraws (w v : World) : Prop := v.inputs = w.inputs ∧ v.rngPos = w.rngPos

theorem blind_drawScalar {fuel : Nat} : Blind World.SameDraws World.SameDraws (drawScalar fuel) := by
  have hdraw : Blind World.SameDraws World.SameDraws (ctapGenerateRng 32) := by
    refine blind_modifyGet fun w v h => ?_
    obtain ⟨hinputs, hpos⟩ := h
    rw [hinputs, hpos]
    exact ⟨rfl, rfl, rfl⟩
  induction fuel with
  | zero => exact blind_throw
  | succ fuel ih => exact hdraw.bind fun _ => blind_ite blind_pure ih

/-- The new record of a key agreement. -/
def PinUvAuthToken.withKey (t : PinUvAuthToken) (key : Bytes 32) : PinUvAuthToken :=
  { t with
    privKey := key
    pubKeyValid := false }

variable {w v w' v' : World}

theorem regenerateKeyAgreement_drawn {slot : Slot} (h : w.SameDraws v)
    (hw : regenerateKeyAgreement slot w = .ok () w') (hv : regenerateKeyAgreement slot v = .ok () v') :
    w'.SameDraws v' ∧ ∃ key, w'.token = Function.update w.token slot ((w.token slot).withKey key) ∧
      v'.token = Function.update v.token slot ((v.token slot).withKey key) := by
  unfold regenerateKeyAgreement at hw hv
  rw [get_bind, bind_eq_ok] at hw hv
  obtain ⟨key, w₁, hdraw, hw⟩ := hw
  obtain ⟨key', v₁, hdraw', hv⟩ := hv
  rw [h.1] at hdraw'
  have hdraws : Blind World.SameDraws World.SameDraws (drawScalar (w.inputs.rng.tries + 1)) := blind_drawScalar
  have hblind := hdraws w v h
  rw [hdraw, hdraw'] at hblind
  cases hblind with
  | ok _ h₁ =>
    have htoken : w₁.token = w.token := (touches_drawScalar .token (by decide)).ok hdraw
    have htoken' : v₁.token = v.token := (touches_drawScalar .token (by decide)).ok hdraw'
    rw [modify_eq_ok.mp hw, modify_eq_ok.mp hv]
    refine ⟨h₁, key, ?_, ?_⟩
    · show Function.update w₁.token slot ((w₁.token slot).withKey key) = _
      rw [htoken]
    · show Function.update v₁.token slot ((v₁.token slot).withKey key) = _
      rw [htoken']

/-- `ctap_client_pin_initialize` draws new tokens and new key agreements and forgets the rest. -/
theorem clientPinInitialize_drawn (h : w.SameDraws v) (hw : clientPinInitialize w = .ok () w')
    (hv : clientPinInitialize v = .ok () v') (s : Slot) :
    v'.token s = { w'.token s with pubKey := (v'.token s).pubKey } ∧ (w'.token s).pubKeyValid = false := by
  unfold clientPinInitialize at hw hv
  obtain ⟨_, w₁, hw₁, hw⟩ := bind_eq_ok.mp hw
  obtain ⟨_, w₂, hw₂, hw⟩ := bind_eq_ok.mp hw
  obtain ⟨_, v₁, hv₁, hv⟩ := bind_eq_ok.mp hv
  obtain ⟨_, v₂, hv₂, hv⟩ := bind_eq_ok.mp hv
  rw [bind_of_ok (resetPinUvAuthToken_eq .p1 w₂), resetPinUvAuthToken_eq] at hw
  rw [bind_of_ok (resetPinUvAuthToken_eq .p1 v₂), resetPinUvAuthToken_eq] at hv
  obtain ⟨rfl⟩ : (w₂.resetToken .p1).resetToken .p2 = w' := by simpa using hw
  obtain ⟨rfl⟩ : (v₂.resetToken .p1).resetToken .p2 = v' := by simpa using hv
  obtain ⟨h₁, key₁, ht₁, ht₁'⟩ := regenerateKeyAgreement_drawn h hw₁ hv₁
  obtain ⟨⟨hinputs, hpos⟩, key₂, ht₂, ht₂'⟩ := regenerateKeyAgreement_drawn h₁ hw₂ hv₂
  cases s <;>
    simp [World.resetToken, World.setToken, PinUvAuthToken.withKey, ht₁, ht₁', ht₂, ht₂', hinputs, hpos]

/-! ## A reset and a first start -/

/-- A new state, made with the random numbers of `inputs`. -/
structure World.Renewed (P : Platform) (inputs : Inputs) (w : World) : Prop where
  state : w.state = AuthState.fresh w.appVersion (streamBytes inputs.rng.byte 0 64)
  stateFile : w.stateFile = stateFileOf P w.state
  keys : w.keys = P.deriveSessionKeys w.state.keySalt
  rkFiles : w.rkFiles = fun _ => []
  idle : ∀ s, (w.token s).state = {}
  drawn : ∃ v v', v.inputs = inputs ∧ v.rngPos = 64 ∧ clientPinInitialize v = .ok () v' ∧ w.token = v'.token
  ga : { w.ga with lastcmd := 0 } = ({} : GetAssertionState)
  upDisabled : w.upDisabled = false

/-- The parts that a new state is made of, and the random numbers for the rest. -/
theorem clientPinInitialize_renewed {inputs : Inputs} {v x : World} (hinputs : v.inputs = inputs) (hpos : v.rngPos = 0)
    (hx : ∀ p ∉ [Part.ga, .keys], p.view x = p.view (v.stateInit.flushed P))
    (hpin : clientPinInitialize x = .ok () w) :
    w.state = AuthState.fresh v.appVersion (streamBytes inputs.rng.byte 0 64) ∧
      w.stateFile = stateFileOf P w.state ∧ w.rkFiles = (fun _ => []) ∧ (∀ s, (w.token s).state = {}) ∧
      (x.inputs = inputs ∧ x.rngPos = 64) ∧
      ∀ p ∉ [Part.inputs, .token, .ga, .keys, .stateFile, .journal, .pinState, .rkStored, .identity, .rkFiles,
        .rkChanges], p.view w = p.view v := by
  have hkept (p : Part) (hp : p ∉ [Part.inputs, .token]) : p.view w = p.view x :=
    (touches_clientPinInitialize p hp).ok hpin
  have hview (p : Part) (hp : p ∉ [Part.inputs, .token, .ga, .keys]) : p.view w = p.view (v.stateInit.flushed P) :=
    (hkept p fun h => hp (by simp at h ⊢; tauto)).trans (hx p fun h => hp (by simp at h ⊢; tauto))
  have hstate : w.state = AuthState.fresh v.appVersion v.drawnSalt :=
    World.state_ext (hview .pinState (by decide)) (hview .rkStored (by decide)) (hview .identity (by decide))
  have hsalt : v.drawnSalt = streamBytes inputs.rng.byte 0 64 := by rw [World.drawnSalt, hinputs, hpos]
  have hfile : w.stateFile = stateFileOf P (AuthState.fresh v.appVersion v.drawnSalt) := hview .stateFile (by decide)
  have hdraws : x.rngPos = v.rngPos + 64 := congrArg Prod.fst (hx .inputs (by decide))
  have hx' : x.fixed = v.fixed := hx .fixed (by decide)
  refine ⟨hsalt ▸ hstate, by rw [hfile, hstate], hview .rkFiles (by decide), clientPinInitialize_idle hpin,
    ⟨?_, by rw [hdraws, hpos]⟩, fun p hp => ?_⟩
  · simp only [World.fixed, Prod.mk.injEq] at hx'
    rw [hx'.2.2.2, hinputs]
  · rw [hview p fun h => hp (by simp at h ⊢; tauto), flushed_view fun h => hp (by simp at h ⊢; tauto),
      stateInit_view fun h => hp (by simp at h ⊢; tauto)]

theorem requireUserPresence_ok {u : Unit} (h : requireUserPresence w = .ok u w') :
    w.upDisabled = false ∧ w'.rngPos = w.rngPos := by
  unfold requireUserPresence at h
  rcases Bool.eq_false_or_eq_true w.upDisabled with hup | hup
  · rw [bind_of_ok (ctap2UserPresenceTest_disabled hup)] at h
    cases h
  · rw [bind_of_ok (ctap2UserPresenceTest_asked hup), checkStatus_eq_ok] at h
    obtain ⟨-, rfl⟩ := h
    exact ⟨hup, rfl⟩

/-- What a reset goes through. -/
theorem ctapReset_ok {out : List UInt8} (h : ctapReset P w = .ok out w') :
    w.upDisabled = false ∧ ∃ v w₁, v.rngPos = w.rngPos ∧
      (∀ p ∉ [Part.inputs, .assertionEvents], p.view v = p.view w) ∧
      clientPinInitialize { v.stateInit.flushed P with ga := {} } = .ok () w₁ ∧
      w' = { w₁ with keys := P.deriveSessionKeys w₁.state.keySalt } := by
  unfold ctapReset at h
  obtain ⟨now, w₂, hmillis, h⟩ := bind_eq_ok.mp h
  obtain ⟨_, w₃, hearly, h⟩ := bind_eq_ok.mp h
  obtain ⟨_, v, hup, h⟩ := bind_eq_ok.mp h
  rw [bind_of_ok (ctapStateInit_eq v), bind_of_ok (authenticatorWriteState_eq _)] at h
  obtain ⟨_, w₄, hga, h⟩ := bind_eq_ok.mp h
  obtain ⟨_, w₅, hpin, h⟩ := bind_eq_ok.mp h
  obtain ⟨_, w₆, hkeys, h⟩ := bind_eq_ok.mp h
  obtain ⟨-, rfl⟩ := pure_eq_ok.mp h
  rw [modify_eq_ok.mp hga] at hpin
  have hw₃ : w₃ = w₂ := (failIf_eq_ok.mp hearly).2
  rw [hw₃] at hup
  have hview₂ (p : Part) (hp : p ∉ [Part.inputs]) : p.view w₂ = p.view w := (touches_millis p hp).ok hmillis
  have hview (p : Part) (hp : p ∉ [Part.inputs, .assertionEvents]) : p.view v = p.view w₂ :=
    (touches_requireUserPresence p hp).ok hup
  have hpos₂ : w₂.rngPos = w.rngPos := by
    cases hmillis
    rfl
  obtain ⟨hdisabled, hpos⟩ := requireUserPresence_ok hup
  refine ⟨(hview₂ .upDisabled (by decide)).symm.trans hdisabled, v, w₅, hpos.trans hpos₂, fun p hp => ?_, hpin,
    modify_eq_ok.mp hkeys⟩
  exact (hview p hp).trans (hview₂ p fun h => hp (by simp at h ⊢; tauto))

variable {r : Served}

/-- A successful reset. -/
theorem Served.Valid.reset_ok (hv : r.Valid P) (hreset : r.resets = true) :
    ∃ w₁, ctapReset P (r.before.withInputs r.after.inputs) = .ok r.response w₁ ∧
      r.after = { w₁ with ga := { w₁.ga with lastcmd := 0x07 } } := by
  simp only [Served.resets, decide_eq_true_eq] at hreset
  obtain ⟨hc, hok⟩ := hreset
  have hcmd : r.cmd = 0x07 := by
    unfold commandOf at hc
    split_ifs at hc with h₁ h₂ h₃ h₄ h₅
    exact h₅
  obtain ⟨w₁, hafter, ⟨-, hd⟩ | ⟨e, hstatus, -⟩⟩ := hv.run
  · rw [hc, dispatch_reset_eq] at hd
    rw [hcmd, hok] at hafter
    exact ⟨w₁, hd, hafter⟩
  · rw [hstatus] at hok
    cases hok

/-- A reset leaves a new state, and the two variables that it does not touch. -/
theorem ctapReset_renewed {out : List UInt8} (h : ctapReset P w = .ok out w') (hpos : w.rngPos = 0) :
    w'.Renewed P w.inputs ∧ w'.pinBootAttemptsLeft = w.pinBootAttemptsLeft ∧ w'.cm = w.cm := by
  obtain ⟨hdisabled, v, w₁, hpos', hv, hpin, rfl⟩ := ctapReset_ok h
  have hfixed : v.fixed = w.fixed := hv .fixed (by decide)
  have hinputs : v.inputs = w.inputs := by
    simp only [World.fixed, Prod.mk.injEq] at hfixed
    exact hfixed.2.2.2
  have hx : ∀ p ∉ [Part.ga, .keys], p.view { v.stateInit.flushed P with ga := {} } = p.view (v.stateInit.flushed P) := by
    intro p hp
    cases p <;> first | rfl | simp at hp
  obtain ⟨hstate, hfile, hrk, hidle, ⟨hxinputs, hxpos⟩, hview⟩ :=
    clientPinInitialize_renewed hinputs (hpos'.trans hpos) hx hpin
  have hga : w₁.ga = {} := (touches_clientPinInitialize .ga (by decide)).ok hpin
  have hversion : w₁.appVersion = v.appVersion := congrArg Prod.fst (hview .fixed (by decide))
  rw [← hversion] at hstate
  refine ⟨⟨hstate, hfile, rfl, hrk, hidle, ⟨_, w₁, hxinputs, hxpos, hpin, rfl⟩, ?_, ?_⟩, ?_, ?_⟩
  · exact congrArg (fun g : GetAssertionState => { g with lastcmd := 0 }) hga
  · exact (hview .upDisabled (by decide)).trans ((hv .upDisabled (by decide)).trans hdisabled)
  · exact (hview .boot (by decide)).trans (hv .boot (by decide))
  · exact (hview .cm (by decide)).trans (hv .cm (by decide))

theorem Served.Valid.renewed (hv : r.Valid P) (hreset : r.resets = true) :
    r.after.Renewed P r.after.inputs ∧ r.after.ga.lastcmd = 0x07 ∧
      r.after.pinBootAttemptsLeft = r.before.pinBootAttemptsLeft ∧ r.after.cm = r.before.cm := by
  obtain ⟨w₁, hok, hafter⟩ := hv.reset_ok hreset
  generalize r.after.inputs = inputs at hok ⊢
  obtain ⟨hnew, hboot, hcm⟩ := ctapReset_renewed hok rfl
  rw [hafter]
  exact ⟨⟨hnew.state, hnew.stateFile, hnew.keys, hnew.rkFiles, hnew.idle, hnew.drawn, hnew.ga, hnew.upDisabled⟩,
    rfl, hboot, hcm⟩

/-- The files and the version of `w` for a first start, but no state and no resident keys. -/
def World.unstarted (w : World) : World := { w with
  stateFile := []
  rkFiles := fun _ => [] }

theorem World.unstarted_isNew (w : World) : w.unstarted.IsNew := ⟨rfl, fun _ => rfl⟩

theorem loaded_of_same (h : w.state.appVersion = w.appVersion) :
    w.loaded P = { w with keys := P.deriveSessionKeys w.state.keySalt } := by
  unfold World.loaded
  rw [h, versionLt_self]
  rfl

/-- What a first start goes through. -/
theorem ctapInit_new {v : World} (hnew : v.stateFile = []) (h : ctapInit P v = .ok true w) :
    clientPinInitialize { v.stateInit.flushed P with
      keys := P.deriveSessionKeys v.drawnSalt } = .ok () w := by
  have hsame : ¬ versionLt v.appVersion v.appVersion = true := Bool.eq_false_iff.mp (versionLt_self _)
  rw [ctapInit_eq (loadState_new hnew)] at h
  obtain ⟨_, w₁, hpin, hret⟩ := bind_eq_ok.mp ((if_neg hsame).symm.trans h)
  obtain ⟨-, rfl⟩ := pure_eq_ok.mp hret
  rwa [loaded_of_same rfl] at hpin

/-- A first start makes a new state as well, with the random numbers of `w` where it gets these. -/
theorem World.unstarted_boots (w : World) :
    ∃ started, Boots P w.unstarted started ∧ started.Renewed P w.inputs ∧ started.Started P ∧
      started.counter = w.counter ∧ started.fixed = w.fixed := by
  obtain ⟨started, hinit⟩ := w.unstarted_isNew.boots (P := P) w.inputs w.appVersion
  have hboots : Boots P w.unstarted started := ⟨_, _, hinit⟩
  obtain ⟨-, -, -, -, hst⟩ := hboots.of_new w.unstarted_isNew
  have hpin := ctapInit_new rfl hinit
  generalize hv : (w.unstarted.powerOn w.appVersion).withInputs w.inputs = v at hpin
  have hx : ∀ p ∉ [Part.ga, .keys], p.view { v.stateInit.flushed P with keys := P.deriveSessionKeys v.drawnSalt }
      = p.view (v.stateInit.flushed P) := by
    intro p hp
    cases p <;> first | rfl | simp at hp
  have hinputs : v.inputs = w.inputs := by rw [← hv]; rfl
  have hpos : v.rngPos = 0 := by rw [← hv]; rfl
  obtain ⟨hstate, hfile, hrk, hidle, ⟨hxinputs, hxpos⟩, hview⟩ := clientPinInitialize_renewed hinputs hpos hx hpin
  have hversion : started.appVersion = v.appVersion := congrArg Prod.fst (hview .fixed (by decide))
  rw [← hversion] at hstate
  refine ⟨started, hboots, ⟨hstate, hfile, hst.keys, hrk, hidle, ⟨_, started, hxinputs, hxpos, hpin, rfl⟩, ?_,
    hst.upDisabled⟩, hst, ?_, ?_⟩
  · rw [hst.ga]
  · rw [show started.counter = v.counter from hview .counter (by decide), ← hv]
    rfl
  · rw [show started.fixed = v.fixed from hview .fixed (by decide), ← hv]
    rfl

/-! ## Resets of a run -/

/-- The same random numbers, the same records up to public keys that are to be computed. -/
theorem World.Renewed.token {inputs : Inputs} (h : w.Renewed P inputs) (h' : w'.Renewed P inputs) (s : Slot) :
    w'.token s = { w.token s with pubKey := (w'.token s).pubKey } ∧ (w.token s).pubKeyValid = false := by
  obtain ⟨v, v₁, hinputs, hpos, hpin, htoken⟩ := h.drawn
  obtain ⟨v', v₁', hinputs', hpos', hpin', htoken'⟩ := h'.drawn
  rw [htoken, htoken']
  exact clientPinInitialize_drawn ⟨hinputs'.trans hinputs.symm, hpos'.trans hpos.symm⟩ hpin hpin' s

theorem World.Renewed.agrees {inputs : Inputs} (h : w.Renewed P inputs) (h' : w'.Renewed P inputs)
    (hversion : w'.appVersion = w.appVersion) (hga : w'.ga = {})
    (hboot : w.pinBootAttemptsLeft = w'.pinBootAttemptsLeft) (hcm : w.cm.valid = w'.cm.valid) : w.Agrees P w' := by
  have hstate : w.state = w'.state := by rw [h.state, h'.state, hversion]
  refine ⟨hstate, ⟨h.stateFile, h'.stateFile⟩, by rw [h.keys, h'.keys, hstate], h.rkFiles.trans h'.rkFiles.symm,
    hboot, fun s => (h.idle s).trans (h'.idle s).symm, ?_, hcm⟩
  rw [hga]
  exact h.ga

/-- A reset leaves what a first start leaves, up to the two variables that it does not touch. -/
theorem Served.Valid.agreesWithNew_iff (hv : r.Valid P) (hreset : r.resets = true) :
    r.after.AgreesWithNew P ↔ r.before.pinBootAttemptsLeft = 3 ∧ r.before.cm.valid = false := by
  obtain ⟨hnew, hlast, hboot, hcm⟩ := hv.renewed hreset
  rw [← hboot, ← hcm]
  constructor
  · intro hagrees
    obtain ⟨-, -, -, hleft, -, -, hvalid, -⟩ := hagrees.fields
    exact ⟨hleft, hvalid⟩
  rintro ⟨hleft, hvalid⟩
  obtain ⟨started, hboots, hnew', hst, hcounter, hfixed⟩ := r.after.unstarted_boots (P := P)
  simp only [World.fixed, Prod.mk.injEq] at hfixed
  obtain ⟨hversion, hkey, hcert, -⟩ := hfixed
  have hlast' : started.ga.lastcmd = 0 := by rw [hst.ga]
  have hagrees : r.after.Agrees P started :=
    hnew.agrees hnew' hversion hst.ga (hleft.trans hst.boot.symm) (by rw [hvalid, hst.cm])
  refine ⟨r.after.unstarted, started, r.after.unstarted_isNew, hboots, hversion, hagrees, fun l hkeys hl => ?_⟩
  refine replies_eq hl fun inputs hinputs => ⟨?_, ?_⟩
  · refine ⟨_, _, _, hagrees.withInputs_eq hcounter (hst.upDisabled.trans hnew.upDisabled.symm)
      ⟨hversion, hkey, hcert⟩ (fun s => (hnew.token hnew' s).1) inputs,
      .inr ⟨hvalid, by rw [hst.cm]⟩, hinputs, fun s => ⟨hkeys s, fun h => ?_⟩⟩
    exact absurd ((hnew.token hnew' s).2.symm.trans h) Bool.false_ne_true
  · show started.ga.lastcmd = 0x02 ↔ r.after.ga.lastcmd = 0x02
    rw [hlast, hlast']
    decide

/-- **In every run, a device that is reset is like one that was started for the first time exactly when no
attempt of the power cycle was missing and no enumeration was in progress.** -/
theorem reset_agrees_with_new_iff {h : List Entry} {w : World} (hr : Run P h w) {r : Served}
    (hmem : Entry.request r ∈ h) (hreset : r.resets = true) :
    r.after.AgreesWithNew P ↔ r.before.pinBootAttemptsLeft = 3 ∧ r.before.cm.valid = false := by
  obtain ⟨h₁, h₂, rfl⟩ := List.append_of_mem hmem
  obtain ⟨-, hv, -⟩ := hr.suffix.of_request
  exact hv.agreesWithNew_iff hreset

section Histories

/-- A PIN is set, and the authenticator is reset. -/
theorem reset_agrees_with_new_iff_pin : ∃ h w r, Run simPlatform h w ∧ Entry.request r ∈ h ∧ r.resets = true ∧
    r.before.state.isPinSet = 1 ∧ r.after.AgreesWithNew simPlatform := by
  have heval : ((serveAll simPlatform simStart [touched 6 (setPinRequest "1234"), touched 7 []]).map fun x =>
      x.2.head?.map fun r =>
        (r.resets, r.before.state.isPinSet, r.before.pinBootAttemptsLeft, r.before.cm.valid))
      = some (some (true, 1, 3, false)) := by
    decide +kernel
  obtain ⟨⟨w, rs⟩, hrs, hhead⟩ := Option.map_eq_some_iff.mp heval
  obtain ⟨r, hr, hfacts⟩ := Option.map_eq_some_iff.mp hhead
  obtain ⟨hreset, hpin, hleft, hvalid⟩ : r.resets = true ∧ r.before.state.isPinSet = 1 ∧
      r.before.pinBootAttemptsLeft = 3 ∧ r.before.cm.valid = false := by
    simpa using hfacts
  have hrun := serveAll_run run_simStart hrs
  have hmem : Entry.request r ∈ rs.map .request ++ [.boot simStart] :=
    List.mem_append_left _ (List.mem_map.mpr ⟨r, List.mem_of_mem_head? hr, rfl⟩)
  exact ⟨_, w, r, hrun, hmem, hreset, hpin, (reset_agrees_with_new_iff hrun hmem hreset).mpr ⟨hleft, hvalid⟩⟩

/-- A PIN is set and entered wrong: after the reset one attempt of the power cycle is missing. -/
theorem reset_after_wrong_pin : ¬ ∀ h w r, Run simPlatform h w → Entry.request r ∈ h → r.resets = true →
    r.after.AgreesWithNew simPlatform := by
  have heval : ((serveAll simPlatform simStart [touched 6 (setPinRequest "1234"),
      touched 6 (getTokenRequest "0000" 1 "a"), touched 7 []]).map fun x =>
      x.2.head?.map fun r => (r.resets, r.after.pinBootAttemptsLeft))
      = some (some (true, 2)) := by
    decide +kernel
  intro hall
  obtain ⟨⟨w, rs⟩, hrs, hhead⟩ := Option.map_eq_some_iff.mp heval
  obtain ⟨r, hr, hfacts⟩ := Option.map_eq_some_iff.mp hhead
  obtain ⟨hreset, hleft⟩ : r.resets = true ∧ r.after.pinBootAttemptsLeft = 2 := by simpa using hfacts
  have hmem : Entry.request r ∈ rs.map .request ++ [.boot simStart] :=
    List.mem_append_left _ (List.mem_map.mpr ⟨r, List.mem_of_mem_head? hr, rfl⟩)
  have hagrees := hall _ w r (serveAll_run run_simStart hrs) hmem hreset
  obtain ⟨-, -, -, hboot, -⟩ := hagrees.fields
  rw [hleft] at hboot
  exact absurd hboot (by decide)

end Histories

end TkeyFido2
