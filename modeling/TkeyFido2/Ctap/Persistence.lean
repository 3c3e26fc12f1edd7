import TkeyFido2.Ctap.Simulator

/-!
# The state file holds the state

Between two commands the file holds the state in memory: every function that changes a field of
`STATE` writes the file before it returns.
-/

namespace TkeyFido2

open Cbor Prog

/-! ## Writes of the state -/

section Writes

variable {P : Platform} {I : World → Prop}

/-- What the commands change apart from the state and its file. -/
def unwrittenParts : List Part :=
  [.inputs, .token, .issued, .verified, .usage, .hmacOutputs, .signatures, .assertionEvents, .counter, .ga, .cm, .upDisabled, .pinChecks,
    .journal, .boot, .rkFiles, .rkChanges, .keys]

variable (hI : Ignores unwrittenParts I)
  (hwrite : ∀ f : World → World, (∀ w, (f w).identity = w.identity ∧ (f w).fixed = w.fixed) →
    Preserves I (do modify f; authenticatorWriteState P))

include hwrite in
theorem preserves_resetPinAttempts : Preserves I (resetPinAttempts P) :=
  preserves_get.bind fun _ =>
    preserves_ite (fun _ => hwrite _ fun _ => ⟨rfl, rfl⟩) fun _ => preserves_pure

include hI hwrite

theorem preserves_decrementPinAttempts : Preserves I (decrementPinAttempts P) := by
  unfold decrementPinAttempts
  refine Preserves.bind (preserves_modify fun w hw => ?_) fun _ => preserves_get.bind fun w => ?_
  · refine hI w _ (fun p hp => ?_) hw
    split
    · cases p <;> first | rfl | exact absurd (by decide) hp
    · rfl
  refine preserves_ite (fun _ => ?_) fun _ => preserves_pure
  rw [← bind_assoc]
  refine Preserves.bind ?_ fun _ => preserves_get.bind fun _ => ?_
  · exact hwrite _ fun _ => ⟨rfl, rfl⟩
  · exact preserves_ite (fun _ => hwrite _ fun _ => ⟨rfl, rfl⟩) fun _ => preserves_pure

theorem preserves_storePin {pin : List UInt8} : Preserves I (storePin P pin) :=
  (hI.preserves touches_ctapGenerateRng (by decide)).bind fun _ => hwrite _ fun _ => ⟨rfl, rfl⟩

theorem preserves_ctapOverwriteRk {rk : ResidentKey} : Preserves I (ctapOverwriteRk P rk) := by
  have hfile {n : Fin 16} {l : List ResidentKey} {c : RkChange} : Preserves I (writeRkFile n l c) :=
    hI.preserves touches_writeRkFile (by decide)
  refine preserves_get.bind fun w => ?_
  dsimp only
  cases overwriteFirst rk (w.rkFiles (rkFile rk.id.rpIdLookup)) with
  | some l => exact hfile
  | none => exact hfile.bind fun _ => hwrite _ fun _ => ⟨rfl, rfl⟩

theorem preserves_ctapDeleteRk {id : CredentialId} : Preserves I (ctapDeleteRk P id) := by
  have hfile {n : Fin 16} {l : List ResidentKey} {c : RkChange} : Preserves I (writeRkFile n l c) :=
    hI.preserves touches_writeRkFile (by decide)
  refine preserves_get.bind fun w => ?_
  cases deleteFirst id (w.rkFiles (rkFile id.rpIdLookup)) with
  | none => exact preserves_pure
  | some l =>
    refine hfile.bind fun _ => Preserves.bind ?_ fun _ => preserves_pure
    exact hwrite _ fun _ => ⟨rfl, rfl⟩

/-- An invariant of the writes of the state and of a new state is one of the commands. -/
theorem preserves_dispatch_of_write (hinit : ∀ w, I w → I (w.stateInit.flushed P)) (c : Command)
    (request : List UInt8) : Preserves I (dispatch P c request) :=
  preserves_dispatch (hI.mono (by decide))
    (preserves_ctapMakeCredential (hI.mono (by decide)) fun _ _ _ _ _ _ _ =>
      preserves_makeAttestedData (hI.mono (by decide)) fun _ => preserves_ctapOverwriteRk hI hwrite)
    (preserves_ctapClientPin (hI.mono (by decide))
      (fun hk => (preserves_comparePin (hI.mono (by decide))
        (fun _ => hI.preserves touches_verifyAgainstStoredPin (by decide))
        (preserves_decrementPinAttempts hI hwrite) (preserves_resetPinAttempts hwrite) hk).leads
        fun _ h => h.1)
      fun _ => preserves_storePin hI hwrite)
    (preserves_ctapCredentialManagement (hI.mono (by decide))
      (fun _ => preserves_deleteCredential fun _ => preserves_ctapDeleteRk hI hwrite) fun _ =>
      preserves_updateUserInformation (hI.mono (by decide)) fun _ => preserves_ctapOverwriteRk hI hwrite)
    c fun _ => preserves_ctapReset (hI.mono (by decide)) hinit

end Writes

/-! ## Commands -/

section Commands

variable {P : Platform}

/-- The file holds the state in memory. -/
structure Synced (P : Platform) (w : World) : Prop where
  version : w.state.version = stateVersion
  file : w.stateFile = stateFileOf P w.state

/-- A change of the state that is written. -/
theorem preserves_modify_write {f : World → World} (hf : ∀ w, (f w).identity = w.identity) :
    Preserves (Synced P) (do modify f; authenticatorWriteState P) := by
  rw [preserves_iff_ends]
  intro w hw
  rw [ends_bind, ends_modify]
  have hversion : (f w).state.version = w.state.version := congrArg Prod.fst (hf w)
  have hwritten : Synced P ((f w).flushed P) := ⟨hversion.trans hw.version, rfl⟩
  exact ends_of_ok (authenticatorWriteState_eq _) hwritten

theorem ignores_synced :
    Ignores [.inputs, .token, .issued, .verified, .usage, .hmacOutputs, .signatures, .assertionEvents, .counter, .ga, .cm, .upDisabled,
      .pinChecks, .journal, .boot, .rkFiles, .rkChanges, .keys, .fixed] (Synced P) := by
  intro w w' h hw
  have hstate : w'.state = w.state :=
    World.state_ext (h .pinState (by decide)) (h .rkStored (by decide)) (h .identity (by decide))
  have hfile : w'.stateFile = w.stateFile := h .stateFile (by decide)
  exact ⟨hstate ▸ hw.version, by rw [hfile, hstate, hw.file]⟩

theorem synced_dispatch (c : Command) (request : List UInt8) :
    Preserves (Synced P) (dispatch P c request) :=
  preserves_dispatch_of_write (ignores_synced.mono (by decide))
    (fun _ hf => preserves_modify_write fun w => (hf w).1) (fun _ _ => ⟨rfl, rfl⟩) c request

end Commands

/-! ## Runs -/

section Runs

variable {P : Platform}

theorem Boots.synced_of_new {w w' : World} (h : Boots P w w') (hw : w.IsNew) : Synced P w' := by
  obtain ⟨salt, hstate, hfile, -⟩ := h.of_new hw
  exact ⟨by rw [hstate]; rfl, hfile⟩

theorem Synced.boots {w w' : World} (hw : Synced P w) (h : Boots P w w') : Synced P w' := by
  obtain ⟨hstate, hfile, -⟩ := h.of_stored hw.file hw.version
  refine ⟨?_, hfile⟩
  rw [hstate]
  unfold AuthState.started
  split <;> exact hw.version

/-- The file holds the state between two commands. -/
theorem Run.synced {h : List Entry} {w : World} (hr : Run P h w) : Synced P w :=
  hr.invariant (ignores_synced.mono (by decide)) (fun _ _ hw hb => hb.synced_of_new hw)
    (fun _ _ hw hb => hw.boots hb) fun c request => synced_dispatch c request

/-- In every reachable state the stored file reads back as the state in memory, whatever the
structure held that it is read into, and so a power cycle takes over that state, with the version of
a newer program. -/
theorem reachable_state_is_stored {w : World} (h : Reachable P w) :
    (∀ s₀, readEnvelope P s₀ w.stateFile = .ok (some w.state)) ∧
      ∀ w', Boots P w w' → w'.state = w.state.started w'.appVersion := by
  obtain ⟨hist, hr⟩ := h
  have hs := hr.synced
  refine ⟨fun s₀ => ?_, fun w' hb => (hb.of_stored hs.file hs.version).1⟩
  rw [hs.file, readEnvelope_stateFileOf P s₀ hs.version]

/-- The state that the first start wrote. -/
theorem simStart_state_is_stored :
    (∀ s₀, readEnvelope simPlatform s₀ simStart.stateFile = .ok (some simStart.state)) ∧
      ∀ w', Boots simPlatform simStart w' → w'.state = simStart.state.started w'.appVersion :=
  reachable_state_is_stored ⟨_, run_simStart⟩

end Runs

/-! ## The bytes of the file -/

/-- What is read of a file: the CBOR part lies within the bytes that were read, and a file that cannot
hold an envelope is not accepted. -/
structure ReadsWithin (P : Platform) (file : List UInt8) : Prop where
  fits : file.head? = some stateMagic →
    (cborSize file.length).toNat ≤ 175 ∧ 17 + (cborSize file.length).toNat ≤ file.length
  rejects : file.length < 17 → ∀ s, readEnvelope P s file = .ok none

/-- **The state file is read within its bytes**, unless it begins with the magic byte and is shorter than
an envelope. -/
theorem readEnvelope_within_iff {P : Platform} {file : List UInt8} (hpos : 1 ≤ file.length)
    (hle : file.length ≤ 192) :
    ReadsWithin P file ↔ ¬ (file.head? = some stateMagic ∧ file.length < 17) := by
  constructor
  · rintro ⟨hfits, -⟩ ⟨hmagic, hshort⟩
    have hsize := (hfits hmagic).1
    rw [cborSize_wraps hshort] at hsize
    omega
  · intro hnot
    refine ⟨fun hmagic => ?_, fun hshort s => ?_⟩
    · have hlong : 17 ≤ file.length := by
        by_contra hshort
        exact hnot ⟨hmagic, by omega⟩
      rw [cborSize_toNat hlong hle]
      omega
    · have hread : fsReadOpen file stateEnvelopeBufSize = some file :=
        fsReadOpen_eq_some.mpr ⟨rfl, hle⟩
      cases file with
      | nil => cases hpos
      | cons magic rest =>
        have hmagic : magic ≠ stateMagic := by
          rintro rfl
          exact hnot ⟨rfl, hshort⟩
        unfold readEnvelope
        rw [hread]
        exact if_pos hmagic

/-- A short file with another first byte. -/
theorem readEnvelope_within_iff_zeroes : ReadsWithin simPlatform (List.replicate 16 0) :=
  (readEnvelope_within_iff (by decide) (by decide)).mpr (by decide)

/-- A file of the magic byte alone: the MAC is computed over almost the whole address space. -/
theorem short_file_overruns :
    ¬ ∀ (P : Platform) (file : List UInt8), 1 ≤ file.length → file.length ≤ 192 → ReadsWithin P file := by
  intro hall
  have h := (hall simPlatform [stateMagic] (by decide) (by decide)).fits rfl
  exact absurd h.1 (by decide)

end TkeyFido2
