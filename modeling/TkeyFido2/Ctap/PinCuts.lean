import TkeyFido2.Ctap.PowerCuts

/-!
# PIN attempts across power cuts

A failing comparison is charged by a write of the state behind it.  As long as the power does not go
between the two, the attempts that the file holds cover the failures.
-/

namespace TkeyFido2

open Cbor Prog Journal

/-! ## Marks -/

/-- What an event means for the attempts; the write of a reset clears them. -/
def Event.pinMark? (resets : Bool) : Event → Option PinMark
  | .pinCompared matched => some (if matched then .cleared else .failed)
  | .stateWritten _ => if resets then some .cleared else none
  | _ => none

/-- The marks of some events, the newest first. -/
def eventMarks (resets : Bool) (events : List Event) : List PinMark :=
  (events.filterMap (Event.pinMark? resets)).reverse

def CutEntry.marks : CutEntry → List PinMark
  | .boot _ | .cutBoot _ => [.powered]
  | .request r => eventMarks (commandOf r.cmd = .reset) r.events
  | .cutRequest r => eventMarks (commandOf r.cmd = .reset) r.events

/-- The marks of a history with power cuts, the newest first. -/
def cutMarks (h : List CutEntry) : List PinMark := h.flatMap CutEntry.marks

/-- The failures since the last correct PIN entry or reset. -/
def uncleared (marks : List PinMark) : Nat := failures (sinceCleared marks)

section Marks

variable {resets : Bool} {marks : List PinMark} {events : List Event}

@[simp] theorem uncleared_nil : uncleared [] = 0 := rfl

@[simp] theorem uncleared_failed : uncleared (.failed :: marks) = uncleared marks + 1 := by
  simp [uncleared, sinceCleared, failures]

@[simp] theorem uncleared_cleared : uncleared (.cleared :: marks) = 0 := by
  simp [uncleared, sinceCleared, failures]

@[simp] theorem uncleared_powered : uncleared (.powered :: marks) = uncleared marks := by
  simp [uncleared, sinceCleared, failures]

theorem eventMarks_concat (e : Event) :
    eventMarks resets (events ++ [e]) = (e.pinMark? resets).toList ++ eventMarks resets events := by
  unfold eventMarks
  rw [List.filterMap_append, List.reverse_append]
  cases h : e.pinMark? resets <;> simp [h]

/-- Removed files do not count. -/
theorem eventMarks_removals {q : List Event} (hq : q <+: removals) :
    eventMarks resets (events ++ q) = eventMarks resets events := by
  have hnil : q.filterMap (Event.pinMark? resets) = [] := by
    rw [List.filterMap_eq_nil_iff]
    intro e he
    obtain ⟨n, -, rfl⟩ := List.mem_map.mp (hq.subset he)
    rfl
  unfold eventMarks
  rw [List.filterMap_append, hnil, List.append_nil]

/-- Only the journal counts. -/
theorem eventMarks_journal (events : List Event) :
    eventMarks resets (events.filter Event.isJournal) = eventMarks resets events := by
  unfold eventMarks
  rw [List.filterMap_filter]
  congr 2
  funext e
  cases e <;> rfl

end Marks

/-! ## The attempts in the file -/

section Covering

variable {P : Platform}

/-- The file holds a state whose attempts cover the failures. -/
def Disk.Covers (P : Platform) (marks : List PinMark) (d : Disk) : Prop :=
  ∃ s : AuthState, d.stateFile = stateFileOf P s ∧ s.version = stateVersion ∧
    0 ≤ s.remainingTries.toInt ∧ s.remainingTries.toInt + uncleared marks ≤ 8

/-- The same of a device that may be new. -/
def Disk.CoversOrNew (P : Platform) (marks : List PinMark) (d : Disk) : Prop :=
  (d.stateFile = [] ∧ uncleared marks = 0) ∨ d.Covers P marks

/-- A cut between a failing comparison and the write that charges it. -/
def Uncharged (events : List Event) : Prop := events.getLast? = some (.pinCompared false)

/-- What holds of the files at every point of a request or a start that began with the files `d₀` and
the marks `marks`. -/
abbrev Chargeable (P : Platform) (resets : Bool) (marks : List PinMark) (d₀ : Disk) (w : World) : Prop :=
  Durable (Disk.write P) Uncharged (fun p => Disk.CoversOrNew P (eventMarks resets p ++ marks)) d₀
    w.journal w.disk

/-- The attempts in memory and in the file cover the failures, those of this request included. -/
structure Tallied (P : Platform) (resets : Bool) (marks : List PinMark) (d₀ : Disk) (w : World) :
    Prop where
  synced : Synced P w
  durable : Chargeable P resets marks d₀ w
  nonneg : 0 ≤ w.state.remainingTries.toInt
  covers : w.state.remainingTries.toInt + uncleared (eventMarks resets w.journal ++ marks) ≤ 8

variable {resets : Bool} {marks : List PinMark} {d₀ : Disk}

theorem ignores_tallied :
    Ignores [.inputs, .token, .issued, .verified, .usage, .hmacOutputs, .signatures, .rkChanges, .assertionEvents,
      .counter, .ga, .cm, .upDisabled, .pinChecks, .boot, .keys, .fixed] (Tallied P resets marks d₀) := by
  intro w w' h hw
  have hjournal : w'.journal = w.journal := h .journal (by decide)
  have hdisk : w'.disk = w.disk := by
    unfold World.disk
    rw [show w'.stateFile = w.stateFile from h .stateFile (by decide),
      show w'.rkFiles = w.rkFiles from h .rkFiles (by decide)]
  have hstate : w'.state = w.state :=
    World.state_ext (h .pinState (by decide)) (h .rkStored (by decide)) (h .identity (by decide))
  have hsynced : Synced P w' := ignores_synced.mono (by decide) w w' h hw.synced
  refine ⟨hsynced, ?_, by rw [hstate]; exact hw.nonneg, by rw [hstate, hjournal]; exact hw.covers⟩
  unfold Chargeable
  rw [hjournal, hdisk]
  exact hw.durable

/-- A state that was just written. -/
theorem Chargeable.flushed {w : World} (h : Chargeable P resets marks d₀ w)
    (hv : w.state.version = stateVersion) (h₀ : 0 ≤ w.state.remainingTries.toInt)
    (hc : w.state.remainingTries.toInt
      + uncleared (eventMarks resets (w.journal ++ [.stateWritten w.state]) ++ marks) ≤ 8) :
    Tallied P resets marks d₀ (w.flushed P) := by
  refine ⟨⟨hv, rfl⟩, ?_, h₀, by rw [journal_flushed]; exact hc⟩
  have := h.concat (e := .stateWritten w.state) fun _ => .inr ⟨w.state, rfl, hv, h₀, hc⟩
  rwa [← journal_flushed (P := P)] at this

/-- A write makes the failures no more. -/
theorem uncleared_stateWritten_le {events : List Event} {s : AuthState} :
    uncleared (eventMarks resets (events ++ [.stateWritten s]) ++ marks)
      ≤ uncleared (eventMarks resets events ++ marks) := by
  rw [eventMarks_concat]
  cases resets <;> simp [Event.pinMark?]

/-- A change of the state is written. -/
theorem Chargeable.write {w : World} {f : World → World} (h : Chargeable P resets marks d₀ w)
    (hj : (f w).journal = w.journal) (hd : (f w).disk = w.disk)
    (hv : (f w).state.version = stateVersion) (h₀ : 0 ≤ (f w).state.remainingTries.toInt)
    (hc : (f w).state.remainingTries.toInt + uncleared (eventMarks resets w.journal ++ marks) ≤ 8) :
    Tallied P resets marks d₀ ((f w).flushed P) := by
  have hdur : Chargeable P resets marks d₀ (f w) := by
    unfold Chargeable
    rw [hj, hd]
    exact h
  have hle : uncleared (eventMarks resets (w.journal ++ [.stateWritten (f w).state]) ++ marks)
      ≤ uncleared (eventMarks resets w.journal ++ marks) := uncleared_stateWritten_le
  refine hdur.flushed hv h₀ ?_
  rw [hj]
  omega

/-- A change of the state that leaves the attempts alone, and is written. -/
theorem tallied_modify_write {f : World → World}
    (hf : ∀ w, (f w).state.version = w.state.version ∧
      (f w).state.remainingTries = w.state.remainingTries ∧ (f w).journal = w.journal ∧
      (f w).disk = w.disk) :
    Preserves (Tallied P resets marks d₀) (do modify f; authenticatorWriteState P) := by
  rw [preserves_iff_ends]
  intro w hw
  rw [ends_bind, ends_modify]
  obtain ⟨hv, ht, hj, hd⟩ := hf w
  exact ends_of_ok (authenticatorWriteState_eq _) (hw.durable.write hj hd
    (hv.trans hw.synced.version) (by rw [ht]; exact hw.nonneg) (by rw [ht]; exact hw.covers))

theorem tallied_writeRkFile {n : Fin 16} {l : List ResidentKey} {c : RkChange} :
    Preserves (Tallied P resets marks d₀) (writeRkFile n l c) := by
  intro w hw
  show Tallied P resets marks d₀ (w.putRkFile n l c)
  have hmarks : eventMarks resets (w.journal ++ [.rkWritten n l]) = eventMarks resets w.journal := by
    rw [eventMarks_concat]
    rfl
  refine ⟨⟨hw.synced.version, hw.synced.file⟩, ?_, hw.nonneg, ?_⟩
  · have := hw.durable.concat (e := .rkWritten n l) fun _ =>
      .inr ⟨w.state, hw.synced.file, hw.synced.version, hw.nonneg, by rw [hmarks]; exact hw.covers⟩
    rwa [← journal_putRkFile (c := c)] at this
  · rw [journal_putRkFile, hmarks]
    exact hw.covers

/-! ## Comparisons -/

theorem tallied_resetPinAttempts {w : World} (hw : Tallied P resets marks d₀ w)
    (hclear : uncleared (eventMarks resets w.journal ++ marks) = 0) :
    Ends (resetPinAttempts P) w (fun _ => Tallied P resets marks d₀) fun _ _ => False := by
  have h8 : pinLockoutAttempts.toInt = 8 := by decide
  have hwritten := hw.durable.write
    (f := fun w => { w with
      pinBootAttemptsLeft := pinBootAttempts
      state := { w.state with remainingTries := pinLockoutAttempts } })
    rfl rfl hw.synced.version (by rw [h8]; decide) (by rw [h8, hclear]; decide)
  unfold resetPinAttempts
  rw [ends_bind, ends_get, ends_ite]
  refine ⟨fun _ => ?_, fun _ => hw⟩
  rw [ends_bind, ends_modify]
  exact ends_of_ok (authenticatorWriteState_eq _) hwritten

/-- `decrement_pin_attempts` charges a failure that is not covered yet. -/
theorem tallied_decrementPinAttempts {w : World} (hv : w.state.version = stateVersion)
    (hd : Chargeable P resets marks d₀ w) (hopen : 0 < w.state.remainingTries)
    (hc : w.state.remainingTries.toInt + uncleared (eventMarks resets w.journal ++ marks) ≤ 9) :
    Ends (decrementPinAttempts P) w (fun _ => Tallied P resets marks d₀)
      fun _ => Tallied P resets marks d₀ := by
  obtain ⟨hpos, hsub⟩ := toInt_sub_one hopen
  unfold decrementPinAttempts
  rw [ends_bind, ends_modify, ends_bind, ends_get, ends_ite]
  have hsame (c : Prop) [Decidable c] (b : Int8) :
      (if c then { w with pinBootAttemptsLeft := b } else w).state = w.state ∧
      (if c then { w with pinBootAttemptsLeft := b } else w).journal = w.journal ∧
      (if c then { w with pinBootAttemptsLeft := b } else w).disk = w.disk := by
    split <;> exact ⟨rfl, rfl, rfl⟩
  obtain ⟨hs, hj, hdisk⟩ := hsame (0 < w.pinBootAttemptsLeft) (w.pinBootAttemptsLeft - 1)
  generalize (if 0 < w.pinBootAttemptsLeft then
    { w with pinBootAttemptsLeft := w.pinBootAttemptsLeft - 1 } else w) = w₁ at hs hj hdisk
  have hlocked : clientPinIsLocked w₁ = false := by
    unfold clientPinIsLocked
    rw [hs]
    simpa using hopen
  refine ⟨fun _ => ?_, fun h => absurd hlocked (by simpa using h)⟩
  have hw₁ : Chargeable P resets marks d₀ w₁ := by
    unfold Chargeable
    rw [hj, hdisk]
    exact hd
  have htries : w₁.state.remainingTries - 1 = w.state.remainingTries - 1 := by rw [hs]
  have hwritten := hw₁.write
    (f := fun w => { w with state := { w.state with remainingTries := w₁.state.remainingTries - 1 } })
    rfl rfl (by rw [← hv, ← hs]) (by rw [htries, hsub]; omega) (by rw [htries, hsub, hj]; omega)
  rw [ends_bind, ends_modify, ends_bind]
  refine ends_of_ok (authenticatorWriteState_eq _) ?_
  rw [ends_bind, ends_get, ends_ite]
  refine ⟨fun _ => ?_, fun _ => hwritten⟩
  -- the last attempt is gone: the PIN is wiped, with one more write
  have hlock : Preserves (Tallied P resets marks d₀) (lockDevicePermanently P) :=
    tallied_modify_write fun _ => ⟨rfl, rfl, rfl, rfl⟩
  exact hlock.ends hwritten

/-- The key agreement key is no part of the account. -/
theorem regenerateKeyAgreement_same {slot : Slot} {w w' : World}
    (h : regenerateKeyAgreement slot w = .ok () w') :
    w'.state = w.state ∧ w'.journal = w.journal ∧ w'.disk = w.disk := by
  have hview (p : Part) (hp : p ∉ [Part.inputs, .token]) : p.view w' = p.view w :=
    (touches_regenerateKeyAgreement p hp).ok h
  refine ⟨World.state_ext (hview .pinState (by decide)) (hview .rkStored (by decide))
    (hview .identity (by decide)), hview .journal (by decide), ?_⟩
  unfold World.disk
  rw [show w'.stateFile = w.stateFile from hview .stateFile (by decide),
    show w'.rkFiles = w.rkFiles from hview .rkFiles (by decide)]

/-- A comparison behind open locks: a match clears the failures, and a mismatch is charged. -/
theorem tallied_comparePin {α : Type} {h : Bytes 16} {proto : UInt8} {k : CtapM α}
    (hk : Preserves (Tallied P resets marks d₀) k) :
    Leads (fun w => Tallied P resets marks d₀ w ∧ w.Unlocked) (Tallied P resets marks d₀)
      (comparePin P h proto k) := by
  rw [leads_iff_ends]
  rintro w ⟨hw, hopen, -⟩
  let matched : Bool := h = P.prims.aesCbcDecrypt P.keyPinEnc w.state.pinHashIv w.state.pinHashEnc
  let w₁ : World := { w with trace := w.trace ++ [.pinCompared matched] }
  have hj : w₁.journal = w.journal ++ [.pinCompared matched] := by
    simp [World.journal, w₁, Event.isJournal]
  have hcov := hw.covers
  rw [ends_bind]
  refine ends_of_ok (show verifyAgainstStoredPin P h w = .ok matched w₁ from rfl) ?_
  rw [ends_ite]
  constructor
  · intro hm
    have hclear : uncleared (eventMarks resets (w.journal ++ [.pinCompared matched]) ++ marks) = 0 := by
      rw [eventMarks_concat, hm]
      exact uncleared_cleared
    have hle : w.state.remainingTries.toInt
        + uncleared (eventMarks resets (w.journal ++ [.pinCompared matched]) ++ marks) ≤ 8 := by
      rw [hclear]
      omega
    have hd := hw.durable.concat (e := .pinCompared matched) fun _ =>
      .inr ⟨w.state, hw.synced.file, hw.synced.version, hw.nonneg, hle⟩
    rw [← hj] at hd hclear hle
    have hw₁ : Tallied P resets marks d₀ w₁ :=
      ⟨⟨hw.synced.version, hw.synced.file⟩, hd, hw.nonneg, hle⟩
    rw [ends_bind]
    exact (tallied_resetPinAttempts hw₁ hclear).mono (fun _ w₂ h₂ => hk.ends h₂) fun _ _ h => h.elim
  · intro hm
    have hfalse : matched = false := Bool.eq_false_iff.mpr hm
    have hd : Chargeable P resets marks d₀ w₁ := by
      have := hw.durable.concat (e := .pinCompared matched) fun hgap => by
        refine absurd ?_ hgap
        rw [hfalse]
        exact List.getLast?_concat
      rwa [← hj] at this
    have hcount : uncleared (eventMarks resets w₁.journal ++ marks)
        = uncleared (eventMarks resets w.journal ++ marks) + 1 := by
      rw [hj, eventMarks_concat, hfalse]
      exact uncleared_failed
    obtain ⟨w₂, hkey⟩ := regenerateKeyAgreement_ok (slotOf proto) w₁
    obtain ⟨hs, hj₂, hdisk⟩ := regenerateKeyAgreement_same hkey
    have hd₂ : Chargeable P resets marks d₀ w₂ := by
      unfold Chargeable
      rw [hj₂, hdisk]
      exact hd
    have hstate : w₂.state = w.state := hs
    unfold pinMismatch
    rw [ends_bind]
    refine ends_of_ok hkey ?_
    rw [ends_bind]
    refine (tallied_decrementPinAttempts (by rw [hstate]; exact hw.synced.version) hd₂
      (by rw [hstate]; exact hopen) (by rw [hstate, hj₂, hcount]; push_cast; omega)).mono
      (fun _ w₃ h₃ => ?_) fun _ _ h => h
    simp only [ends_bind, ends_get, ends_failIf, ends_failWith]
    exact ⟨fun _ => h₃, fun _ => ⟨fun _ => h₃, fun _ => h₃⟩⟩

/-! ## Commands -/

theorem tallied_storePin {pin : List UInt8} : Preserves (Tallied P resets marks d₀) (storePin P pin) :=
  (ignores_tallied.preserves touches_ctapGenerateRng (by decide)).bind fun _ =>
    tallied_modify_write fun _ => ⟨rfl, rfl, rfl, rfl⟩

theorem tallied_ctapOverwriteRk {rk : ResidentKey} :
    Preserves (Tallied P resets marks d₀) (ctapOverwriteRk P rk) := by
  refine preserves_get.bind fun w => ?_
  dsimp only
  cases overwriteFirst rk (w.rkFiles (rkFile rk.id.rpIdLookup)) with
  | some l => exact tallied_writeRkFile
  | none =>
    exact tallied_writeRkFile.bind fun _ => tallied_modify_write fun _ => ⟨rfl, rfl, rfl, rfl⟩

theorem tallied_ctapDeleteRk {id : CredentialId} :
    Preserves (Tallied P resets marks d₀) (ctapDeleteRk P id) := by
  refine preserves_get.bind fun w => ?_
  cases deleteFirst id (w.rkFiles (rkFile id.rpIdLookup)) with
  | none => exact preserves_pure
  | some l =>
    refine tallied_writeRkFile.bind fun _ => Preserves.bind ?_ fun _ => preserves_pure
    exact tallied_modify_write fun _ => ⟨rfl, rfl, rfl, rfl⟩

theorem Disk.CoversOrNew.congr {d d' : Disk} (h : d.CoversOrNew P marks)
    (hfile : d'.stateFile = d.stateFile) : d'.CoversOrNew P marks := by
  unfold Disk.CoversOrNew Disk.Covers at *
  rwa [hfile]

/-- A new state is written behind the removal of the files. -/
theorem Chargeable.stateInit_flushed {w : World} (hd : Chargeable P resets marks d₀ w)
    (hbefore : w.disk.CoversOrNew P (eventMarks resets w.journal ++ marks))
    (hclear : ∀ s, uncleared (eventMarks resets (w.journal ++ [.stateWritten s]) ++ marks) = 0) :
    Tallied P resets marks d₀ (w.stateInit.flushed P) := by
  have hinit : Chargeable P resets marks d₀ w.stateInit := by
    have := hd.append (k := removals) fun q e hq => by
      rw [eventMarks_removals hq]
      exact hbefore.congr (stateFile_replay (stateWritten_notMem_removals hq))
    rwa [← disk_stateInit, ← journal_stateInit] at this
  have h8 : pinLockoutAttempts.toInt = 8 := by decide
  have htries : w.stateInit.state.remainingTries.toInt = 8 := h8
  refine hinit.flushed rfl (by rw [htries]; decide) ?_
  rw [journal_stateInit, eventMarks_concat, eventMarks_removals List.prefix_rfl, ← eventMarks_concat,
    hclear, htries]
  decide

theorem Tallied.coversOrNew {w : World} (hw : Tallied P resets marks d₀ w) :
    w.disk.CoversOrNew P (eventMarks resets w.journal ++ marks) :=
  .inr ⟨w.state, hw.synced.file, hw.synced.version, hw.nonneg, hw.covers⟩

theorem tallied_ctapReset : Preserves (Tallied P true marks d₀) (ctapReset P) := by
  refine preserves_ctapReset (ignores_tallied.mono (by decide)) fun w hw => ?_
  refine hw.durable.stateInit_flushed hw.coversOrNew fun s => ?_
  rw [eventMarks_concat]
  exact uncleared_cleared

theorem tallied_dispatch (c : Command) (request : List UInt8) :
    Preserves (Tallied P (c = .reset) marks d₀) (dispatch P c request) := by
  refine preserves_dispatch (ignores_tallied.mono (by decide))
    (preserves_ctapMakeCredential (ignores_tallied.mono (by decide)) fun _ _ _ _ _ _ _ =>
      preserves_makeAttestedData (ignores_tallied.mono (by decide)) fun _ => tallied_ctapOverwriteRk)
    (preserves_ctapClientPin (ignores_tallied.mono (by decide)) tallied_comparePin fun _ =>
      tallied_storePin)
    (preserves_ctapCredentialManagement (ignores_tallied.mono (by decide))
      (fun _ => preserves_deleteCredential fun _ => tallied_ctapDeleteRk) fun _ =>
      preserves_updateUserInformation (ignores_tallied.mono (by decide)) fun _ => tallied_ctapOverwriteRk)
    c fun hc => ?_
  rw [decide_eq_true hc]
  exact tallied_ctapReset

/-- The state of a start: the attempts in the file are taken over, or a new state is written. -/
theorem tallied_loadState {w : World} (hj : w.journal = []) (hd : w.disk.CoversOrNew P marks) :
    Ends (loadState P) w (fun _ => Tallied P false marks w.disk) fun _ _ => False := by
  have hnil : eventMarks false w.journal ++ marks = marks := by rw [hj]; rfl
  have hstart : Chargeable P false marks w.disk w := by
    unfold Chargeable
    rw [hj]
    exact durable_nil hd
  rcases hd with hnew | ⟨s, hfile, hv, h₀, hc⟩
  · refine ends_of_ok (loadState_new hnew.1) (hstart.stateInit_flushed ?_ fun s => ?_)
    · rw [hnil]
      exact .inl hnew
    · rw [eventMarks_concat, List.append_assoc, hnil]
      exact hnew.2
  · have hread : readEnvelope P w.state w.stateFile = .ok (some s) := by
      rw [show w.stateFile = stateFileOf P s from hfile, readEnvelope_stateFileOf P _ hv]
    rw [← hnil] at hc
    exact ends_of_ok (loadState_stored hread) ⟨⟨hv, hfile⟩, hstart, h₀, hc⟩

theorem tallied_ctapInit {w : World} (hj : w.journal = []) (hd : w.disk.CoversOrNew P marks) :
    Tallied P false marks w.disk (final (ctapInit P) w) :=
  final_ctapInit (ignores_tallied.mono (by decide))
    (tallied_modify_write fun _ => ⟨rfl, rfl, rfl, rfl⟩) (tallied_loadState hj hd)

end Covering

/-! ## Runs -/

section Runs

variable {P : Platform}

theorem touches_ctapInit : Touches [.inputs, .pinState, .rkStored, .identity, .stateFile, .rkFiles, .rkChanges,
    .journal, .token, .keys] (ctapInit P) := by
  intro p hp
  have hwrite : Keeps p.view (authenticatorWriteState P) :=
    (touches_authenticatorWriteState.mono (by decide)) p hp
  have hstate (f : World → AuthState) :
      Keeps p.view (modify fun w => { w with state := f w } : CtapM Unit) := by
    intro w
    cases p <;> first | rfl | simp at hp
  have hload : Keeps p.view (loadState P) := by
    refine Keeps.bind (fun _ => rfl) fun _ => Keeps.bind ?_ fun _ => ?_
    · exact hstate _
    split
    · exact fun _ => rfl
    · exact hstate _
    · exact Keeps.bind ((touches_ctapStateInit.mono (by decide)) p hp) fun _ => hwrite
  refine hload.bind fun _ => Keeps.bind (fun _ => rfl) fun w => ?_
  by_cases hold : versionLt w.appVersion w.state.appVersion = true
  · rw [if_pos hold]
    exact fun _ => rfl
  rw [if_neg hold]
  refine Keeps.bind ?_ fun _ => Keeps.bind ((touches_deriveKeys.mono (by decide)) p hp) fun _ =>
    Keeps.bind ((touches_clientPinInitialize.mono (by decide)) p hp) fun _ _ => rfl
  unfold onlyIf
  by_cases hnew : versionLt w.state.appVersion w.appVersion = true
  · rw [if_pos hnew]
    exact (hstate _).bind fun _ => hwrite
  · rw [if_neg hnew]
    exact fun _ => rfl

/-- A start compares no PIN. -/
theorem keeps_pinChecks_ctapInit : Keeps World.pinChecks (ctapInit P) :=
  touches_ctapInit .pinChecks (by decide)

theorem pinCompared_notMem {w : World} (h : w.pinChecks = []) (b : Bool) : .pinCompared b ∉ w.trace := by
  intro hb
  have : b ∈ w.pinChecks := List.mem_filterMap.mpr ⟨_, hb, rfl⟩
  rw [h] at this
  cases this

/-- Events without a comparison, of a start. -/
theorem eventMarks_start {events : List Event} (h : ∀ b, .pinCompared b ∉ events) :
    eventMarks false events = [] := by
  unfold eventMarks
  rw [List.reverse_eq_nil_iff, List.filterMap_eq_nil_iff]
  intro e he
  cases e with
  | pinCompared b => exact absurd he (h b)
  | _ => rfl

/-- The attempts cover the failures in memory and in the file; while the power is off, in the file. -/
structure CutCovered (P : Platform) (marks : List PinMark) (p : Power) (w : World) : Prop where
  disk : w.disk.CoversOrNew P marks
  synced : p = .on → Synced P w
  nonneg : p = .on → 0 ≤ w.state.remainingTries.toInt
  covers : p = .on → w.state.remainingTries.toInt + uncleared marks ≤ 8

theorem Tallied.cutCovered {resets : Bool} {marks : List PinMark} {d₀ : Disk} {w : World}
    (hw : Tallied P resets marks d₀ w) :
    CutCovered P (eventMarks resets w.trace ++ marks) .on w := by
  have hcov := hw.coversOrNew
  have htries := hw.covers
  unfold World.journal at hcov htries
  rw [eventMarks_journal] at hcov htries
  exact ⟨hcov, fun _ => hw.synced, fun _ => hw.nonneg, fun _ => htries⟩

/-- A cut outside the gap leaves files that cover the failures. -/
theorem Tallied.cut {resets : Bool} {marks : List PinMark} {w₀ w : World} {events : List Event}
    (hw : Tallied P resets marks w₀.disk w) (he : events <+: w.trace)
    (hgap : ¬ Uncharged (events.filter Event.isJournal)) :
    CutCovered P (eventMarks resets events ++ marks) .off (w₀.cut P events) := by
  have hcut := hw.durable.cuts _ (he.filter Event.isJournal) hgap
  rw [← disk_cut, eventMarks_journal] at hcut
  exact ⟨hcut, nofun, nofun, nofun⟩

theorem Disk.CoversOrNew.powered {marks : List PinMark} {d : Disk} (h : d.CoversOrNew P marks) :
    d.CoversOrNew P (.powered :: marks) := by
  unfold Disk.CoversOrNew Disk.Covers at *
  simpa only [uncleared_powered] using h

/-- The cut is not between a failing comparison and the write of the state that charges it. -/
def Interrupted.Charged (r : Interrupted) : Prop := r.lastStep ≠ some (.pinCompared false)

/-- A request that begins with the failures covered. -/
theorem CutCovered.request {marks : List PinMark} {w : World} (hw : CutCovered P marks .on w) (cmd : UInt8)
    (request : List UInt8) (inputs : Inputs) :
    Tallied P (commandOf cmd = .reset) marks w.disk
      (final (ctapRequest P cmd request) (w.withInputs inputs)) := by
  refine preserves_ctapRequest (ignores_tallied.mono (by decide))
    (tallied_dispatch (commandOf cmd) request) _ ?_
  exact ⟨⟨(hw.synced rfl).version, (hw.synced rfl).file⟩, durable_nil hw.disk, hw.nonneg rfl,
    hw.covers rfl⟩

/-- A start takes the attempts over, or begins anew. -/
theorem CutCovered.boots {marks : List PinMark} {p : Power} {w w' : World} (hw : CutCovered P marks p w)
    (hb : Boots P w w') : CutCovered P (.powered :: marks) .on w' := by
  obtain ⟨inputs, version, hinit⟩ := hb
  have hall : Tallied P false (.powered :: marks) w.disk w' := by
    rw [← final_of_ok hinit]
    exact tallied_ctapInit (w := (w.powerOn version).withInputs inputs) rfl hw.disk.powered
  have hcov := hall.cutCovered
  rwa [eventMarks_start (pinCompared_notMem (keeps_pinChecks_ctapInit.ok hinit))] at hcov

/-- A start during which the power goes. -/
theorem CutCovered.cutBoot {marks : List PinMark} {p : Power} {w : World} (hw : CutCovered P marks p w)
    {inputs : Inputs} {version : UInt32} {events : List Event}
    (hb : events <+: (final (ctapInit P) ((w.powerOn version).withInputs inputs)).trace) :
    CutCovered P (.powered :: marks) .off (w.cut P events) := by
  have hall := tallied_ctapInit (w := (w.powerOn version).withInputs inputs) rfl hw.disk.powered
  have hno : ∀ b, .pinCompared b ∉ events := fun b he =>
    pinCompared_notMem (keeps_pinChecks_ctapInit ((w.powerOn version).withInputs inputs)) b
      (hb.subset he)
  have hcut := @Tallied.cut P _ _ w _ events hall hb fun hgap =>
    hno false (List.mem_of_mem_filter (List.mem_of_getLast? hgap))
  rwa [eventMarks_start hno] at hcut

theorem CutRun.covered {h : List CutEntry} {p : Power} {w : World} (hr : CutRun P h p w)
    (hcuts : ∀ r, .cutRequest r ∈ h → r.Charged) : CutCovered P (cutMarks h) p w := by
  induction hr with
  | new hw => exact ⟨.inl ⟨hw.1, rfl⟩, nofun, nofun, nofun⟩
  | boot hr hb ih => exact (ih fun r hr => hcuts r (List.mem_cons_of_mem _ hr)).boots hb
  | cutBoot hr inputs version events hb ih =>
    exact (ih fun r hr => hcuts r (List.mem_cons_of_mem _ hr)).cutBoot hb
  | request hr r hv hb ih =>
    have hw := ih fun r hr => hcuts r (List.mem_cons_of_mem _ hr)
    subst hb
    obtain ⟨inputs, hreq⟩ := hv
    have hend := hw.request r.cmd r.request inputs
    rw [final_of_ok hreq] at hend
    exact hend.cutCovered
  | cutRequest hr r hv hb ih =>
    have hw := ih fun r hr => hcuts r (List.mem_cons_of_mem _ hr)
    subst hb
    obtain ⟨inputs, hreq⟩ := hv
    exact (hw.request r.cmd r.request inputs).cut hreq (hcuts r (List.mem_cons_self ..))

/-- In every run in which the power may go at any point, but not between a failing comparison and the
write of the state that charges it, at most eight comparisons failed since the last correct PIN entry or
reset, and the attempts in the state file cover them. -/
theorem interrupted_pin_attempts_bounded {h : List CutEntry} {p : Power} {w : World}
    (hr : CutRun P h p w) (hcuts : ∀ r, CutEntry.cutRequest r ∈ h → r.Charged) :
    failures (sinceCleared (cutMarks h)) ≤ 8 ∧
    ∀ s₀ s, readEnvelope P s₀ w.stateFile = .ok (some s) →
      s.remainingTries.toInt + failures (sinceCleared (cutMarks h)) ≤ 8 := by
  rcases (hr.covered hcuts).disk with ⟨hfile, hnone⟩ | ⟨s, hfile, hv, h₀, hc⟩
  · refine ⟨hnone.trans_le (by decide), fun s₀ s hread => ?_⟩
    rw [show w.stateFile = [] from hfile] at hread
    cases hread
  · unfold uncleared at hc
    refine ⟨by omega, fun s₀ s' hread => ?_⟩
    rw [show w.stateFile = stateFileOf P s from hfile, readEnvelope_stateFileOf P s₀ hv] at hread
    obtain rfl := Option.some.inj (Except.ok.inj hread)
    exact hc

/-- A wrong PIN, with a cut behind the write that charges it. -/
theorem interrupted_pin_attempts_bounded_one_failure :
    ∃ h w, CutRun simPlatform h .on w ∧ (∃ r, CutEntry.cutRequest r ∈ h ∧ r.events.length = 2) ∧
      failures (sinceCleared (cutMarks h)) = 1 ∧ failures (sinceCleared (cutMarks h)) ≤ 8 := by
  have heval : ((runSteps simPlatform simStart [.serve (touched 6 (setPinRequest "1234")),
      .cutServe (touched 6 (getTokenRequest "0000" 1 "a")) 2]).map
      fun x => (x.2.map fun
        | .cutRequest r => some (r.events.length, decide (r.lastStep = some (.pinCompared false)))
        | _ => none, failures (sinceCleared (cutMarks (x.2 ++ [.boot simStart])))))
      = some ([none, some (2, false), none], 1) := by
    decide +kernel
  obtain ⟨⟨w, es⟩, hrun, hes⟩ := Option.map_eq_some_iff.mp heval
  obtain ⟨hshape, hfail⟩ := Prod.mk.inj hes
  have hcut := runSteps_cutRun cutRun_simStart hrun
  have hmem : ∀ r, CutEntry.cutRequest r ∈ es ++ [.boot simStart] →
      some (r.events.length, decide (r.lastStep = some (.pinCompared false)))
        ∈ [none, some (2, false), none] := by
    intro r hr
    rw [← hshape]
    have hr' : CutEntry.cutRequest r ∈ es := by simpa using hr
    exact List.mem_map.mpr ⟨_, hr', rfl⟩
  have hcharged : ∀ r, CutEntry.cutRequest r ∈ es ++ [.boot simStart] → r.Charged := by
    intro r hr
    have := hmem r hr
    simp at this
    exact this.2
  have hone : ∃ r, CutEntry.cutRequest r ∈ es ∧ r.events.length = 2 := by
    have hin : some (2, false) ∈ [none, some (2, false), none] := by simp
    rw [← hshape] at hin
    obtain ⟨e, he, heq⟩ := List.mem_map.mp hin
    cases e with
    | cutRequest r =>
      obtain ⟨hlen, -⟩ := Prod.mk.inj (Option.some.inj heq)
      exact ⟨r, he, hlen⟩
    | _ => cases heq
  obtain ⟨r, hr, hlen⟩ := hone
  exact ⟨_, w, hcut, ⟨r, List.mem_append_left _ hr, hlen⟩, hfail,
    (interrupted_pin_attempts_bounded hcut hcharged).1⟩

/-- A cut behind each failing comparison: nine of them fail. -/
theorem cuts_allow_nine_failures :
    ¬ ∀ h p w, CutRun simPlatform h p w → failures (sinceCleared (cutMarks h)) ≤ 8 := by
  have heval : ((runSteps simPlatform simStart (.serve (touched 6 (setPinRequest "1234")) ::
      List.replicate 9 (.cutServe (touched 6 (getTokenRequest "0000" 1 "a")) 1))).map
      fun x => failures (sinceCleared (cutMarks (x.2 ++ [.boot simStart])))) = some 9 := by
    decide +kernel
  intro hall
  obtain ⟨⟨w, es⟩, hrun, hfail⟩ := Option.map_eq_some_iff.mp heval
  have hle := hall _ _ _ (runSteps_cutRun cutRun_simStart hrun)
  rw [show failures (sinceCleared (cutMarks (es ++ [.boot simStart]))) = 9 from hfail] at hle
  omega

end Runs

end TkeyFido2
