import TkeyFido2.Lib.Journal
import TkeyFido2.Ctap.PinAttempts
import TkeyFido2.Ctap.Store

/-!
# Power cuts

The power may go at any point of a start or of a request.  Memory is lost and the files hold what was
written up to there; the next start begins from them.  A write takes place as a whole: the file system
commits a file when it is closed.
-/

namespace TkeyFido2

open Cbor Prog Journal

/-! ## Interrupted runs -/

/-- The files of the state and of the resident keys. -/
structure Disk where
  stateFile : List UInt8
  rkFiles : Fin 16 → List ResidentKey

def World.disk (w : World) : Disk := ⟨w.stateFile, w.rkFiles⟩

/-- An event reaches the files. -/
def Disk.write (P : Platform) (d : Disk) : Event → Disk
  | .stateWritten s => { d with stateFile := stateFileOf P s }
  | .rkWritten n l => { d with rkFiles := Function.update d.rkFiles n l }
  | _ => d

/-- The signature counter after some events. -/
def counterAfter (count : UInt32) (events : List Event) : UInt32 :=
  events.foldl (fun c e => match e with | .counterWritten n => n | _ => c) count

/-- The device without power, when a start or a request got as far as `events`. -/
def World.cut (P : Platform) (w : World) (events : List Event) : World := { w with
  stateFile := (replay (Disk.write P) w.disk events).stateFile
  rkFiles := (replay (Disk.write P) w.disk events).rkFiles
  counter := counterAfter w.counter events }

/-- A request during which the power went. -/
structure Interrupted where
  before : World
  cmd : UInt8
  request : List UInt8
  events : List Event

/-- `ctap_request` got as far as recorded, for some inputs. -/
def Interrupted.Valid (P : Platform) (r : Interrupted) : Prop :=
  ∃ inputs, r.events <+: (final (ctapRequest P r.cmd r.request) (r.before.withInputs inputs)).trace

/-- The last comparison or write before the power went. -/
def Interrupted.lastStep (r : Interrupted) : Option Event :=
  (r.events.filter Event.isJournal).getLast?

inductive CutEntry
  | boot (after : World)
  | request (r : Served)
  | cutBoot (events : List Event)
  | cutRequest (r : Interrupted)

inductive Power
  | on
  | off
  deriving DecidableEq

/-- The histories of a device that may lose its power at any point, the newest entry first. -/
inductive CutRun (P : Platform) : List CutEntry → Power → World → Prop
  | new {w : World} (hw : w.IsNew) : CutRun P [] .off w
  | boot {h : List CutEntry} {p : Power} {w w' : World} (hr : CutRun P h p w) (hb : Boots P w w') :
      CutRun P (.boot w' :: h) .on w'
  | cutBoot {h : List CutEntry} {p : Power} {w : World} (hr : CutRun P h p w) (inputs : Inputs)
      (version : UInt32) (events : List Event)
      (hb : events <+: (final (ctapInit P) ((w.powerOn version).withInputs inputs)).trace) :
      CutRun P (.cutBoot events :: h) .off (w.cut P events)
  | request {h : List CutEntry} {w : World} (hr : CutRun P h .on w) (r : Served) (hv : r.Valid P)
      (hb : r.before = w) : CutRun P (.request r :: h) .on r.after
  | cutRequest {h : List CutEntry} {w : World} (hr : CutRun P h .on w) (r : Interrupted)
      (hv : r.Valid P) (hb : r.before = w) : CutRun P (.cutRequest r :: h) .off (w.cut P r.events)

/-! ## Journals -/

section Journals

variable {P : Platform}

/-- Events outside the journal write neither the state nor a resident key. -/
theorem replay_journal (d : Disk) (events : List Event) :
    replay (Disk.write P) d (events.filter Event.isJournal) = replay (Disk.write P) d events :=
  replay_filter fun d e he => by cases e <;> first | rfl | cases he

theorem disk_cut (w : World) (events : List Event) :
    (w.cut P events).disk = replay (Disk.write P) w.disk (events.filter Event.isJournal) :=
  (replay_journal w.disk events).symm

theorem journal_flushed (w : World) :
    (w.flushed P).journal = w.journal ++ [.stateWritten w.state] := by
  simp [World.journal, World.flushed, Event.isJournal]

theorem journal_putRkFile (w : World) (n : Fin 16) (l : List ResidentKey) (c : RkChange) :
    (w.putRkFile n l c).journal = w.journal ++ [.rkWritten n l] := by
  unfold World.journal World.putRkFile
  rw [List.filter_append, List.filter_append]
  exact List.append_nil _

/-- The removal of the files in `fs_dir_del`. -/
def removals : List Event := (List.finRange 16).map fun n => .rkWritten n []

theorem journal_stateInit (w : World) : w.stateInit.journal = w.journal ++ removals := by
  have hall : removals.filter Event.isJournal = removals := by
    rw [List.filter_eq_self]
    intro e he
    obtain ⟨n, -, rfl⟩ := List.mem_map.mp he
    rfl
  show ((w.trace ++ removals) ++ [Event.rkChanged .reset]).filter Event.isJournal = _
  rw [List.filter_append, List.filter_append, hall]
  exact List.append_nil _

/-- Some of the files are removed. -/
theorem replay_removals (d : Disk) (ns : List (Fin 16)) :
    replay (Disk.write P) d (ns.map fun n => .rkWritten n [])
      = { d with rkFiles := fun n => if n ∈ ns then [] else d.rkFiles n } := by
  induction ns generalizing d with
  | nil => simp
  | cons m ns ih =>
    show replay (Disk.write P) (d.write P (.rkWritten m [])) (ns.map fun n => .rkWritten n []) = _
    rw [ih]
    simp only [Disk.write, Disk.mk.injEq, true_and]
    funext n
    by_cases hn : n = m
    · subst hn
      simp
    · simp [hn]

/-- Only a write of the state changes its file. -/
theorem stateFile_replay {d : Disk} {events : List Event} (h : ∀ s, .stateWritten s ∉ events) :
    (replay (Disk.write P) d events).stateFile = d.stateFile := by
  induction events generalizing d with
  | nil => rfl
  | cons e events ih =>
    have hrest : ∀ s, .stateWritten s ∉ events := fun s hs => h s (List.mem_cons_of_mem _ hs)
    refine (ih (d := d.write P e) hrest).trans ?_
    cases e with
    | stateWritten s => exact absurd (List.mem_cons_self ..) (h s)
    | _ => rfl

theorem stateWritten_notMem_removals {q : List Event} (hq : q <+: removals) (s : AuthState) :
    .stateWritten s ∉ q := by
  intro hs
  obtain ⟨n, -, hn⟩ := List.mem_map.mp (hq.subset hs)
  cases hn

theorem disk_stateInit (w : World) : w.stateInit.disk = replay (Disk.write P) w.disk removals := by
  unfold removals
  rw [replay_removals]
  simp [World.disk, World.stateInit]

end Journals

/-! ## Running the model -/

section Simulation

variable (P : Platform)

/-- A message that is served, or one that the power interrupts behind some events, with the start that
follows. -/
inductive CutStep
  | serve (m : Message)
  | cutServe (m : Message) (events : Nat)

/-- A start with the version of the running program. -/
def startAgain (w : World) (inputs : Inputs) : Option World :=
  match ctapInit P ((w.powerOn w.appVersion).withInputs inputs) with
  | .ok true w' => some w'
  | _ => none

/-- The request of a message, cut behind some events. -/
def interrupt (w : World) (m : Message) (events : Nat) : Interrupted where
  before := w
  cmd := m.cmd
  request := m.request
  events := (final (ctapRequest P m.cmd m.request) (w.withInputs m.inputs)).trace.take events

def CutStep.run (w : World) : CutStep → Option (World × List CutEntry)
  | .serve m => (TkeyFido2.serve P w m).map fun r => (r.after, [.request r])
  | .cutServe m n =>
    let r := interrupt P w m n
    (startAgain P (w.cut P r.events) m.inputs).map fun w' => (w', [.boot w', .cutRequest r])

/-- Take steps in their order: the state behind the last one and the entries, the newest first. -/
def runSteps (w : World) : List CutStep → Option (World × List CutEntry)
  | [] => some (w, [])
  | s :: ss =>
    match s.run P w with
    | none => none
    | some (w₁, es) => (runSteps w₁ ss).map fun x => (x.1, x.2 ++ es)

variable {P}

theorem startAgain_boots {w w' : World} {inputs : Inputs} (h : startAgain P w inputs = some w') :
    Boots P w w' := by
  unfold startAgain at h
  split at h
  · rename_i hok
    obtain rfl := Option.some.inj h
    exact ⟨inputs, w.appVersion, hok⟩
  · cases h

theorem CutStep.run_cutRun {h : List CutEntry} {w w' : World} {s : CutStep} {es : List CutEntry}
    (hr : CutRun P h .on w) (hs : s.run P w = some (w', es)) : CutRun P (es ++ h) .on w' := by
  cases s with
  | serve m =>
    obtain ⟨r, hr', heq⟩ := Option.map_eq_some_iff.mp hs
    obtain ⟨rfl, rfl⟩ := Prod.mk.inj heq
    obtain ⟨hv, hb⟩ := serve_valid hr'
    exact .request hr r hv hb
  | cutServe m n =>
    obtain ⟨w₁, hw₁, heq⟩ := Option.map_eq_some_iff.mp hs
    obtain ⟨rfl, rfl⟩ := Prod.mk.inj heq
    exact .boot (.cutRequest hr (interrupt P w m n) ⟨m.inputs, List.take_prefix ..⟩ rfl)
      (startAgain_boots hw₁)

/-- Steps one after the other make a history. -/
theorem runSteps_cutRun {ss : List CutStep} {h : List CutEntry} {w w' : World} {es : List CutEntry}
    (hr : CutRun P h .on w) (hs : runSteps P w ss = some (w', es)) : CutRun P (es ++ h) .on w' := by
  induction ss generalizing h w es with
  | nil =>
    obtain ⟨rfl, rfl⟩ : w = w' ∧ [] = es := by simpa [runSteps] using hs
    exact hr
  | cons s ss ih =>
    unfold runSteps at hs
    cases hrun : s.run P w with
    | none => simp [hrun] at hs
    | some x =>
      obtain ⟨w₁, es₁⟩ := x
      simp only [hrun, Option.map_eq_some_iff] at hs
      obtain ⟨⟨w₂, es₂⟩, hall, heq⟩ := hs
      obtain ⟨rfl, rfl⟩ := Prod.mk.inj heq
      have := ih (s.run_cutRun hr hrun) hall
      simpa using this

/-- The first start of a device. -/
theorem Run.cutRun {w w' : World} (hr : Run P [.boot w'] w) : CutRun P [.boot w'] .on w' := by
  generalize hh : [Entry.boot w'] = h at hr
  cases hr with
  | start hw hb =>
    obtain ⟨heq, -⟩ := List.cons.inj hh
    cases heq
    exact .boot (.new hw) hb
  | request hr r hv hb => cases hh
  | boot hr hb =>
    obtain ⟨-, rfl⟩ := List.cons.inj hh
    exact absurd hr Run.ne_nil

theorem cutRun_simStart : CutRun simPlatform [.boot simStart] .on simStart := run_simStart.cutRun

end Simulation

end TkeyFido2
