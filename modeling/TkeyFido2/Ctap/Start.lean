import TkeyFido2.Ctap.Invariant
import TkeyFido2.Ctap.StateRoundTrip

/-!
# Starting the device

What `ctap_init` leaves behind: the stored state or a new one, session keys derived from its salt, no
token in use, all boot attempts.
-/

namespace TkeyFido2

open Cbor Prog

variable {P : Platform}

/-- What a start makes of a stored state: only the version of the program may be newer. -/
def AuthState.started (s : AuthState) (appVersion : UInt32) : AuthState :=
  if versionLt s.appVersion appVersion then { s with appVersion := appVersion } else s

/-- The state of a new or reset device. -/
def AuthState.fresh (appVersion : UInt32) (keySalt : Bytes 64) : AuthState where
  version := stateVersion
  appVersion := appVersion
  remainingTries := pinLockoutAttempts
  keySalt := keySalt

/-- The salt that `ctap_state_init` draws. -/
def World.drawnSalt (w : World) : Bytes 64 := streamBytes w.inputs.rng.byte w.rngPos 64

/-- The world after `ctap_state_init`. -/
def World.stateInit (w : World) : World := { w with
  state := AuthState.fresh w.appVersion w.drawnSalt
  rkFiles := fun _ => []
  rngPos := w.rngPos + 64
  trace := (w.trace ++ (List.finRange 16).map fun n => .rkWritten n []) ++ [.rkChanged .reset] }

theorem ctapStateInit_eq (w : World) : ctapStateInit w = .ok () w.stateInit := rfl

theorem stateInit_view {w : World} {p : Part}
    (hp : p ∉ [Part.inputs, .pinState, .rkStored, .identity, .rkFiles, .rkChanges, .journal]) :
    p.view w.stateInit = p.view w := (touches_ctapStateInit p hp).ok (ctapStateInit_eq w)

theorem flushed_view {w : World} {p : Part} (hp : p ∉ [Part.stateFile, .journal]) :
    p.view (w.flushed P) = p.view w :=
  (touches_authenticatorWriteState p hp).ok (authenticatorWriteState_eq w)

/-! ## ctap_init -/

/-- A file that `authenticator_read_state` accepts. -/
theorem loadState_stored {w : World} {s : AuthState}
    (h : readEnvelope P w.state w.stateFile = .ok (some s)) :
    loadState P w = .ok () { w with state := s } := by
  unfold loadState
  rw [get_bind, get_bind, h]
  rfl

/-- A file that `authenticator_read_state` does not accept. -/
theorem loadState_refused {w : World} (h : readEnvelope P w.state w.stateFile = .ok none) :
    loadState P w = .ok () (w.stateInit.flushed P) := by
  unfold loadState
  rw [get_bind, get_bind, h]
  exact authenticatorWriteState_eq w.stateInit

/-- A file that does not exist yet. -/
theorem loadState_new {w : World} (h : w.stateFile = []) :
    loadState P w = .ok () (w.stateInit.flushed P) := loadState_refused (by rw [h]; rfl)

/-- The world behind the version check and the derivation of the keys. -/
def World.loaded (P : Platform) (w : World) : World :=
  let w := if versionLt w.state.appVersion w.appVersion then
      World.flushed P { w with state := { w.state with appVersion := w.appVersion } } else w
  { w with keys := P.deriveSessionKeys w.state.keySalt }

theorem ctapInit_eq {w w₁ : World} (h : loadState P w = .ok () w₁) :
    ctapInit P w = if versionLt w₁.appVersion w₁.state.appVersion then .ok false w₁
      else (do clientPinInitialize; pure true) (w₁.loaded P) := by
  unfold ctapInit
  rw [bind_of_ok h, bind_of_ok run_get]
  by_cases hold : versionLt w₁.appVersion w₁.state.appVersion = true
  · rw [if_pos hold, if_pos hold]
    rfl
  rw [if_neg hold, if_neg hold]
  unfold World.loaded onlyIf
  by_cases hnew : versionLt w₁.state.appVersion w₁.appVersion = true
  · rw [if_pos hnew, if_pos hnew]
    exact bind_of_ok (authenticatorWriteState_eq _)
  · rw [if_neg hnew, if_neg hnew]
    rfl

/-- What a start keeps of the loaded state. -/
theorem final_ctapInit {I : World → Prop} (hI : Ignores [.keys, .inputs, .token] I)
    (hupdate : Preserves I (updateAppVersion P)) {w : World}
    (hload : Ends (loadState P) w (fun _ => I) fun _ _ => False) : I (final (ctapInit P) w) := by
  have hrest : Preserves I (do deriveKeys P; clientPinInitialize; pure true) :=
    (hI.preserves touches_deriveKeys (by decide)).bind fun _ =>
      (hI.preserves touches_clientPinInitialize (by decide)).bind fun _ => preserves_pure
  have h : Ends (ctapInit P) w (fun _ => I) fun _ => I := by
    unfold ctapInit
    rw [ends_bind]
    refine hload.mono (fun _ w₁ hw₁ => ?_) fun _ _ h => h.elim
    rw [ends_bind, ends_get, ends_ite]
    refine ⟨fun _ => hw₁, fun _ => Preserves.ends ?_ hw₁⟩
    exact (preserves_onlyIf hupdate).bind fun _ => hrest
  exact h.final

/-! ## Tokens -/

/-- A token record with a new token that is not in use. -/
def World.resetToken (w : World) (slot : Slot) : World :=
  { w with rngPos := w.rngPos + 32 }.setToken slot { w.token slot with
    token := streamBytes w.inputs.rng.byte w.rngPos 32
    state := {} }

theorem resetPinUvAuthToken_eq (slot : Slot) (w : World) :
    resetPinUvAuthToken slot w = .ok () (w.resetToken slot) := rfl

/-- `ctap_client_pin_initialize` ends the use of both tokens. -/
theorem clientPinInitialize_idle {w w' : World} (h : clientPinInitialize w = .ok () w') (s : Slot) :
    (w'.token s).state = {} := by
  unfold clientPinInitialize at h
  obtain ⟨_, w₁, -, h⟩ := bind_eq_ok.mp h
  obtain ⟨_, w₂, -, h⟩ := bind_eq_ok.mp h
  rw [bind_of_ok (resetPinUvAuthToken_eq .p1 w₂), resetPinUvAuthToken_eq] at h
  obtain ⟨rfl⟩ : (w₂.resetToken .p1).resetToken .p2 = w' := by simpa using h
  cases s <;> simp [World.resetToken, World.setToken]

/-! ## Starts -/

/-- Memory after a start: everything that is not loaded from a file. -/
structure World.Started (P : Platform) (w : World) : Prop where
  keys : w.keys = P.deriveSessionKeys w.state.keySalt
  boot : w.pinBootAttemptsLeft = pinBootAttempts
  idle : ∀ s, (w.token s).state = {}
  ga : w.ga = {}
  cm : w.cm = {}
  upDisabled : w.upDisabled = false

theorem versionLt_self (v : UInt32) : versionLt v v = false := by
  simp [versionLt, le32, memcmpLt]

theorem loaded_state (w : World) : (w.loaded P).state = w.state.started w.appVersion := by
  unfold World.loaded AuthState.started
  split <;> rfl

theorem loaded_stateFile (w : World) : (w.loaded P).stateFile
    = if versionLt w.state.appVersion w.appVersion then stateFileOf P (w.loaded P).state
      else w.stateFile := by
  unfold World.loaded
  split <;> rfl

theorem loaded_view {w : World} {p : Part} (hp : p ∉ [Part.identity, .stateFile, .journal, .keys]) :
    p.view (w.loaded P) = p.view w := by
  have hflush (v : World) : p.view (v.flushed P) = p.view v :=
    flushed_view fun h => hp (by simp at h ⊢; tauto)
  have hkeys (v : World) (k : SessionKeys) : p.view { v with keys := k } = p.view v := by
    cases p <;> first | rfl | simp at hp
  unfold World.loaded
  split
  · refine (hkeys _ _).trans ((hflush _).trans ?_)
    cases p <;> first | rfl | simp at hp
  · exact hkeys _ _

/-- The memory of a world that was just switched on. -/
structure World.PoweredOn (w : World) : Prop where
  boot : w.pinBootAttemptsLeft = pinBootAttempts
  ga : w.ga = {}
  cm : w.cm = {}
  upDisabled : w.upDisabled = false

/-- A start from a loaded state. -/
theorem started_of_load {w w₁ w' : World} (hload : loadState P w = .ok () w₁) (hw : w₁.PoweredOn)
    (hinit : ctapInit P w = .ok true w') :
    w'.Started P ∧ w'.appVersion = w₁.appVersion ∧ w'.state = w₁.state.started w₁.appVersion ∧
      w'.stateFile = (if versionLt w₁.state.appVersion w₁.appVersion then stateFileOf P w'.state
        else w₁.stateFile) ∧ w'.rkFiles = w₁.rkFiles ∧ w'.counter = w₁.counter := by
  rw [ctapInit_eq hload] at hinit
  split at hinit
  · simp at hinit
  obtain ⟨_, w₂, hpin, hret⟩ := bind_eq_ok.mp hinit
  obtain ⟨-, rfl⟩ := pure_eq_ok.mp hret
  have hview (p : Part) (hp : p ∉ [Part.inputs, .token]) : p.view w' = p.view (w₁.loaded P) :=
    (touches_clientPinInitialize p hp).ok hpin
  have hsame (p : Part) (hp : p ∉ [Part.inputs, .token, .identity, .stateFile, .journal, .keys]) :
      p.view w' = p.view w₁ := by
    rw [hview p fun h => hp (by simp at h ⊢; tauto), loaded_view fun h => hp (by simp at h ⊢; tauto)]
  have hstate : w'.state = (w₁.loaded P).state :=
    World.state_ext (hview .pinState (by decide)) (hview .rkStored (by decide))
      (hview .identity (by decide))
  have hkeys : w'.keys = P.deriveSessionKeys (w₁.loaded P).state.keySalt := hview .keys (by decide)
  have hfile : w'.stateFile = (w₁.loaded P).stateFile := hview .stateFile (by decide)
  refine ⟨⟨by rw [hkeys, hstate], ?_, clientPinInitialize_idle hpin, ?_, ?_, ?_⟩, ?_, ?_, ?_, ?_, ?_⟩
  · exact (hsame .boot (by decide)).trans hw.boot
  · exact (hsame .ga (by decide)).trans hw.ga
  · exact (hsame .cm (by decide)).trans hw.cm
  · exact (hsame .upDisabled (by decide)).trans hw.upDisabled
  · exact congrArg Prod.fst (hsame .fixed (by decide))
  · rw [hstate, loaded_state]
  · rw [hfile, loaded_stateFile, hstate]
  · exact hsame .rkFiles (by decide)
  · exact hsame .counter (by decide)

/-- A start on a file that is not accepted: a new state, and the resident keys are gone. -/
theorem started_of_refused {w w' : World} {inputs : Inputs} {version : UInt32}
    (h : readEnvelope P {} w.stateFile = .ok none)
    (hinit : ctapInit P ((w.powerOn version).withInputs inputs) = .ok true w') :
    ∃ salt, w'.appVersion = version ∧ w'.state = AuthState.fresh version salt ∧
      w'.stateFile = stateFileOf P w'.state ∧ w'.rkFiles = (fun _ => []) ∧ w'.Started P := by
  have hload := loadState_refused (P := P) (w := (w.powerOn version).withInputs inputs) h
  obtain ⟨hst, hv, hs, hf, hrk, -⟩ := started_of_load hload ⟨rfl, rfl, rfl, rfl⟩ hinit
  have hsame : versionLt version version = false := versionLt_self version
  have hstate : w'.state = AuthState.fresh version
      ((w.powerOn version).withInputs inputs).drawnSalt := by
    rw [hs]
    exact if_neg (Bool.eq_false_iff.mp hsame)
  refine ⟨_, hv, hstate, ?_, hrk, hst⟩
  rw [hf, hstate]
  exact ite_self _

/-- A start of a device that was never started. -/
theorem Boots.of_new {w w' : World} (h : Boots P w w') (hw : w.IsNew) :
    ∃ salt, w'.state = AuthState.fresh w'.appVersion salt ∧ w'.stateFile = stateFileOf P w'.state ∧
      w'.rkFiles = (fun _ => []) ∧ w'.Started P := by
  obtain ⟨inputs, version, hinit⟩ := h
  obtain ⟨salt, hv, hstate, hfile, hrk, hst⟩ := started_of_refused (by rw [hw.1]; rfl) hinit
  exact ⟨salt, by rw [hv]; exact hstate, hfile, hrk, hst⟩

/-- A start from the file of a state. -/
theorem Boots.of_stored {w w' : World} {s : AuthState} (h : Boots P w w')
    (hw : w.stateFile = stateFileOf P s) (hs : s.version = stateVersion) :
    w'.state = s.started w'.appVersion ∧ w'.stateFile = stateFileOf P w'.state ∧
      w'.rkFiles = w.rkFiles ∧ w'.counter = w.counter ∧ w'.Started P := by
  obtain ⟨inputs, version, hinit⟩ := h
  have hread : readEnvelope P {} w.stateFile = .ok (some s) := by
    rw [hw, readEnvelope_stateFileOf P _ hs]
  have hload := loadState_stored (P := P) (w := (w.powerOn version).withInputs inputs) hread
  obtain ⟨hst, hv, hstate, hf, hrk, hc⟩ := started_of_load hload ⟨rfl, rfl, rfl, rfl⟩ hinit
  refine ⟨by rw [hstate, hv], ?_, hrk, hc, hst⟩
  rw [hf]
  split
  · rfl
  · rename_i hold
    rw [hstate]
    unfold AuthState.started
    rw [if_neg hold]
    exact hw

/-! ## A new device starts -/

theorem drawScalar_ok {fuel : Nat} {w : World}
    (h : ∃ k < fuel, isValidScalar (streamBytes w.inputs.rng.byte (w.rngPos + 32 * k) 32) = true) :
    ∃ key n, drawScalar fuel w = .ok key { w with rngPos := n } := by
  induction fuel generalizing w with
  | zero => simp at h
  | succ fuel ih =>
    obtain ⟨k, hk, hvalid⟩ := h
    let key := streamBytes w.inputs.rng.byte w.rngPos 32
    have hstep : drawScalar (fuel + 1) w = (if isValidScalar key then pure key else drawScalar fuel :
        CtapM (Bytes 32)) { w with rngPos := w.rngPos + 32 } := rfl
    by_cases hkey : isValidScalar key = true
    · rw [hstep, if_pos hkey]
      exact ⟨key, _, rfl⟩
    · rw [hstep, if_neg hkey]
      cases k with
      | zero => exact absurd hvalid hkey
      | succ k =>
        have hpos : w.rngPos + 32 * (k + 1) = w.rngPos + 32 + 32 * k := by omega
        obtain ⟨key', n, hd⟩ := ih (w := { w with rngPos := w.rngPos + 32 })
          ⟨k, by omega, by rw [← hpos]; exact hvalid⟩
        exact ⟨key', n, hd⟩

/-- A generator that works yields a key. -/
theorem regenerateKeyAgreement_ok (slot : Slot) (w : World) :
    ∃ w', regenerateKeyAgreement slot w = .ok () w' := by
  obtain ⟨k, hk, hvalid⟩ := w.inputs.rng.scalar w.rngPos
  obtain ⟨key, n, hd⟩ := drawScalar_ok (w := w) ⟨k, Nat.lt_succ_of_le hk, hvalid⟩
  unfold regenerateKeyAgreement
  rw [bind_of_ok run_get, bind_of_ok hd]
  exact ⟨_, rfl⟩

theorem clientPinInitialize_ok (w : World) : ∃ w', clientPinInitialize w = .ok () w' := by
  obtain ⟨w₁, h₁⟩ := regenerateKeyAgreement_ok .p1 w
  obtain ⟨w₂, h₂⟩ := regenerateKeyAgreement_ok .p2 w₁
  unfold clientPinInitialize
  rw [bind_of_ok h₁, bind_of_ok h₂, bind_of_ok (resetPinUvAuthToken_eq .p1 w₂)]
  exact ⟨_, resetPinUvAuthToken_eq .p2 _⟩

/-- A program starts on a file that it does not accept. -/
theorem boots_refused {w : World} (h : readEnvelope P {} w.stateFile = .ok none) (inputs : Inputs)
    (version : UInt32) :
    ∃ w', ctapInit P ((w.powerOn version).withInputs inputs) = .ok true w' := by
  have hload := loadState_refused (P := P) (w := (w.powerOn version).withInputs inputs) h
  obtain ⟨w', h⟩ := clientPinInitialize_ok
    (World.loaded P (((w.powerOn version).withInputs inputs).stateInit.flushed P))
  refine ⟨w', ?_⟩
  rw [ctapInit_eq hload]
  exact (if_neg (Bool.eq_false_iff.mp (versionLt_self version))).trans
    (bind_eq_ok.mpr ⟨(), w', h, rfl⟩)

theorem World.IsNew.boots {w : World} (hw : w.IsNew) (inputs : Inputs) (version : UInt32) :
    ∃ w', ctapInit P ((w.powerOn version).withInputs inputs) = .ok true w' :=
  boots_refused (by rw [hw.1]; rfl) inputs version

/-! ## Resets -/

/-- An invariant that a new state and its write keep is one of a reset. -/
theorem preserves_ctapReset {I : World → Prop} (hI : Ignores [.inputs, .assertionEvents, .ga, .token, .keys] I)
    (hinit : ∀ w, I w → I (w.stateInit.flushed P)) : Preserves I (ctapReset P) := by
  refine (hI.preserves touches_millis (by decide)).bind fun _ => preserves_failIf.bind fun _ =>
    (hI.preserves touches_requireUserPresence (by decide)).bind fun _ => ?_
  rw [← bind_assoc]
  refine Preserves.bind ?_ fun _ => (hI.preserves touches_modifyGa (by decide)).bind fun _ =>
    (hI.preserves touches_clientPinInitialize (by decide)).bind fun _ =>
    (hI.preserves touches_deriveKeys (by decide)).bind fun _ => preserves_pure
  rw [preserves_iff_ends]
  intro w hw
  rw [ends_bind]
  refine ends_of_ok (ctapStateInit_eq w) ?_
  exact ends_of_ok (authenticatorWriteState_eq _) (hinit w hw)

/-- What `ctap_reset` leaves behind. -/
structure World.IsReset (P : Platform) (w w' : World) : Prop where
  state : ∃ salt, w'.state = AuthState.fresh w.appVersion salt
  stateFile : w'.stateFile = stateFileOf P w'.state
  rkFiles : w'.rkFiles = fun _ => []
  keys : w'.keys = P.deriveSessionKeys w'.state.keySalt
  idle : ∀ s, (w'.token s).state = {}
  ga : w'.ga = {}
  others : ∀ p ∈ [Part.counter, .boot, .cm, .upDisabled, .pinChecks, .issued, .verified, .usage, .fixed],
    p.view w' = p.view w

/-- A reset takes place as a whole, or it changes nothing. -/
theorem ctapReset_ends (w : World) :
    Ends (ctapReset P) w (fun _ w' => w.IsReset P w')
      fun _ w' => ∀ p ∉ [Part.inputs, .assertionEvents], p.view w' = p.view w := by
  have hkeep {α : Type} {m : CtapM α} (hm : Touches [.inputs, .assertionEvents] m) {v : World}
      (hv : ∀ p ∉ [Part.inputs, .assertionEvents], p.view v = p.view w) :
      Ends m v (fun _ w' => ∀ p ∉ [Part.inputs, .assertionEvents], p.view w' = p.view w)
        fun _ w' => ∀ p ∉ [Part.inputs, .assertionEvents], p.view w' = p.view w :=
    ends_of_runs (fun _ _ hok p hp => ((hm p hp).ok hok).trans (hv p hp))
      fun _ _ herr p hp => ((hm p hp).error herr).trans (hv p hp)
  unfold ctapReset
  rw [ends_bind]
  refine (hkeep (touches_millis.mono (by decide)) fun _ _ => rfl).mono (fun _ w₁ h₁ => ?_)
    fun _ _ h => h
  rw [ends_bind, ends_failIf]
  refine ⟨fun _ => h₁, fun _ => ?_⟩
  rw [ends_bind]
  refine (hkeep touches_requireUserPresence h₁).mono (fun _ w₂ h₂ => ?_) fun _ _ h => h
  rw [ends_bind]
  refine ends_of_ok (ctapStateInit_eq w₂) ?_
  rw [ends_bind]
  refine ends_of_ok (authenticatorWriteState_eq _) ?_
  rw [ends_bind, ends_modify, ends_bind]
  obtain ⟨w₃, h₃⟩ := clientPinInitialize_ok { w₂.stateInit.flushed P with ga := {} }
  refine ends_of_ok h₃ ?_
  have hview (p : Part) (hp : p ∉ [Part.inputs, .token]) :
      p.view w₃ = p.view { w₂.stateInit.flushed P with ga := {} } :=
    (touches_clientPinInitialize p hp).ok h₃
  have hstate : w₃.state = AuthState.fresh w₂.appVersion w₂.drawnSalt :=
    World.state_ext (hview .pinState (by decide)) (hview .rkStored (by decide))
      (hview .identity (by decide))
  have hversion : w₂.appVersion = w.appVersion := congrArg Prod.fst (h₂ .fixed (by decide))
  have hfile : w₃.stateFile = stateFileOf P (AuthState.fresh w₂.appVersion w₂.drawnSalt) :=
    hview .stateFile (by decide)
  have hidle : ∀ s, (w₃.token s).state = {} := clientPinInitialize_idle h₃
  refine ⟨⟨_, by rw [← hversion]; exact hstate⟩, by rw [← hstate] at hfile; exact hfile,
    hview .rkFiles (by decide), rfl, hidle, hview .ga (by decide), fun p hp => ?_⟩
  have hnot : p ∉ [Part.inputs, .token] ∧ p ∉ [Part.inputs, .assertionEvents] ∧
      p ∉ [Part.stateFile, .journal] ∧
      p ∉ [Part.inputs, .pinState, .rkStored, .identity, .rkFiles, .rkChanges, .journal] :=
    (by decide : ∀ p ∈ [Part.counter, .boot, .cm, .upDisabled, .pinChecks, .issued, .verified, .usage, .fixed],
      p ∉ [Part.inputs, .token] ∧ p ∉ [Part.inputs, .assertionEvents] ∧ p ∉ [Part.stateFile, .journal] ∧
      p ∉ [Part.inputs, .pinState, .rkStored, .identity, .rkFiles, .rkChanges, .journal]) p hp
  obtain ⟨hinit, h₀, hflush, hstart⟩ := hnot
  have hga (v : World) : p.view { v with ga := {} } = p.view v := by
    cases p <;> first | rfl | simp at hp
  have hkeys : p.view { w₃ with keys := P.deriveSessionKeys w₃.state.keySalt } = p.view w₃ := by
    cases p <;> first | rfl | simp at hp
  calc p.view { w₃ with keys := P.deriveSessionKeys w₃.state.keySalt }
    _ = p.view w₃ := hkeys
    _ = p.view (w₂.stateInit.flushed P) := (hview p hinit).trans (hga _)
    _ = p.view w₂.stateInit := flushed_view hflush
    _ = p.view w₂ := stateInit_view hstart
    _ = p.view w := h₂ p h₀

end TkeyFido2
