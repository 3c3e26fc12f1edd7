import TkeyFido2.Ctap.PinCuts

/-!
# The attempts of a power cycle

A correct PIN restores both counters, but `reset_pin_attempts` returns early when no attempt is missing
from the persistent one.  The two agree there unless a reset of the authenticator restores the persistent
counter alone.
-/

namespace TkeyFido2

open Cbor Prog

variable {P : Platform}

/-! ## A bound at every cut -/

/-- A cut behind a failing comparison leaves the files of a cut in front of it. -/
theorem exists_charged (d : Disk) (q : List Event) :
    ∃ q', q' <+: q ∧ ¬ Uncharged q' ∧
      Journal.replay (Disk.write P) d q' = Journal.replay (Disk.write P) d q := by
  induction q using List.reverseRecOn with
  | nil => exact ⟨[], List.prefix_rfl, by simp [Uncharged], rfl⟩
  | append_singleton q e ih =>
    by_cases he : e = .pinCompared false
    · obtain ⟨q', hq', hgap, hreplay⟩ := ih
      refine ⟨q', hq'.trans (List.prefix_append q [e]), hgap, ?_⟩
      rw [hreplay, Journal.replay_concat, he]
      rfl
    · exact ⟨q ++ [e], List.prefix_rfl, by simpa [Uncharged] using he, rfl⟩

/-- In every run, wherever the power went, some account covers the attempts. -/
theorem CutRun.someCovered {h : List CutEntry} {p : Power} {w : World} (hr : CutRun P h p w) :
    ∃ marks, CutCovered P marks p w := by
  induction hr with
  | new hw => exact ⟨[], .inl ⟨hw.1, rfl⟩, nofun, nofun, nofun⟩
  | boot hr hb ih =>
    obtain ⟨marks, hw⟩ := ih
    exact ⟨_, hw.boots hb⟩
  | cutBoot hr inputs version events hb ih =>
    obtain ⟨marks, hw⟩ := ih
    exact ⟨_, hw.cutBoot hb⟩
  | request hr r hv hb ih =>
    obtain ⟨marks, hw⟩ := ih
    subst hb
    obtain ⟨inputs, hreq⟩ := hv
    have hend := hw.request r.cmd r.request inputs
    rw [final_of_ok hreq] at hend
    exact ⟨_, hend.cutCovered⟩
  | cutRequest hr r hv hb ih =>
    obtain ⟨marks, hw⟩ := ih
    subst hb
    obtain ⟨inputs, hreq⟩ := hv
    have hend := hw.request r.cmd r.request inputs
    obtain ⟨q, hq, hgap, hreplay⟩ := exists_charged (P := P) r.before.disk (r.events.filter Event.isJournal)
    have hcut := hend.durable.cuts q (hq.trans (hreq.filter Event.isJournal)) hgap
    rw [hreplay, ← disk_cut] at hcut
    exact ⟨_, hcut, nofun, nofun, nofun⟩

theorem CutRun.tries_le {h : List CutEntry} {w : World} (hr : CutRun P h .on w) :
    w.state.remainingTries.toInt ≤ 8 := by
  obtain ⟨marks, hw⟩ := hr.someCovered
  have hcov := hw.covers rfl
  omega

/-! ## The two counters -/

/-- No attempt of the power cycle is missing when none is missing at all. -/
def World.InStep (w : World) : Prop :=
  w.state.remainingTries = pinLockoutAttempts → w.pinBootAttemptsLeft = pinBootAttempts

/-- Both counters are full. -/
def World.Full (w : World) : Prop :=
  w.state.remainingTries = pinLockoutAttempts ∧ w.pinBootAttemptsLeft = pinBootAttempts

/-- The counters are in step where the entry ends, and full behind a correct PIN. -/
def CutEntry.InStep : CutEntry → Prop
  | .boot w => w.InStep
  | .request r => r.after.InStep ∧ (true ∈ r.after.pinChecks → r.after.Full)
  | _ => True

theorem Boots.inStep {w w' : World} (hb : Boots P w w') : w'.InStep := by
  obtain ⟨inputs, version, hinit⟩ := hb
  intro _
  exact (touches_ctapInit .boot (by decide)).ok hinit

section Requests

variable {r : Served}

/-- A reset restores the persistent counter only. -/
theorem Served.Valid.inStep_of_resets (hv : r.Valid P) (hreset : r.resets = true) :
    r.after.InStep ↔ r.before.pinBootAttemptsLeft = pinBootAttempts := by
  have hacc := hv.account
  rw [if_pos hreset] at hacc
  have ht : r.after.state.remainingTries = pinLockoutAttempts := congrArg PinAccount.tries hacc
  have hb : r.after.pinBootAttemptsLeft = r.before.pinBootAttemptsLeft := congrArg PinAccount.boot hacc
  unfold World.InStep
  rw [hb]
  exact ⟨fun h => h ht, fun h _ => h⟩

/-- No request but a reset gets the counters out of step, and behind a correct PIN both are full. -/
theorem Served.Valid.inStep (hv : r.Valid P) (hreset : r.resets = false)
    (hle : r.before.state.remainingTries.toInt ≤ 8) (hin : r.before.InStep) :
    (CutEntry.request r).InStep := by
  have hacc := hv.account
  rw [if_neg (by simp [hreset])] at hacc
  generalize ha : r.after.account = a at hacc
  have ht : r.after.state.remainingTries = a.tries := congrArg PinAccount.tries ha
  have hb : r.after.pinBootAttemptsLeft = a.boot := congrArg PinAccount.boot ha
  have hchecks : r.after.pinChecks = a.checks := congrArg PinAccount.checks ha
  show (r.after.state.remainingTries = _ → r.after.pinBootAttemptsLeft = _) ∧
    (_ ∈ r.after.pinChecks → r.after.state.remainingTries = _ ∧ r.after.pinBootAttemptsLeft = _)
  rw [ht, hb, hchecks]
  cases hacc with
  | quiet => exact ⟨hin, fun h => absurd h (by simp [World.newAccount])⟩
  | failed hu =>
    refine ⟨fun hfull => ?_, fun h => absurd h (by simp [World.newAccount])⟩
    have hsub := (toInt_sub_one hu.1).2
    have hfull' : (r.before.newAccount.tries - 1).toInt = 8 := congrArg Int8.toInt hfull
    have hle' : r.before.newAccount.tries.toInt ≤ 8 := hle
    omega
  | matched hu boot hboot =>
    have hfull : boot = pinBootAttempts := by
      split_ifs at hboot with htries
      · exact hboot.trans (hin htries)
      · exact hboot
    exact ⟨fun _ => hfull, fun _ => ⟨rfl, hfull⟩⟩

/-- A reset compares no PIN. -/
theorem Served.Valid.pinChecks_of_resets (hv : r.Valid P) (hreset : r.resets = true) :
    r.after.pinChecks = [] := by
  have hacc := hv.account
  rw [if_pos hreset] at hacc
  exact congrArg PinAccount.checks hacc

end Requests

theorem CutRun.valid {h : List CutEntry} {p : Power} {w : World} (hr : CutRun P h p w) {r : Served}
    (hmem : CutEntry.request r ∈ h) : r.Valid P := by
  induction hr with
  | new hw => cases hmem
  | boot hr hb ih => exact ih (by simpa using hmem)
  | cutBoot hr inputs version events hb ih => exact ih (by simpa using hmem)
  | cutRequest hr r' hv hb ih => exact ih (by simpa using hmem)
  | request hr r' hv hb ih =>
    rcases List.mem_cons.mp hmem with heq | hmem
    · cases heq
      exact hv
    · exact ih hmem

/-- The counters stay in step as long as a reset finds the attempts of the power cycle complete. -/
theorem CutRun.inStep {h : List CutEntry} {p : Power} {w : World} (hr : CutRun P h p w)
    (hresets : ∀ r, CutEntry.request r ∈ h → r.resets = true →
      r.before.pinBootAttemptsLeft = pinBootAttempts) :
    (p = .on → w.InStep) ∧ ∀ e ∈ h, e.InStep := by
  induction hr with
  | new hw => exact ⟨fun h => absurd h (by decide), fun e he => absurd he (by simp)⟩
  | boot hr hb ih =>
    obtain ⟨-, hall⟩ := ih fun r hr => hresets r (List.mem_cons_of_mem _ hr)
    exact ⟨fun _ => hb.inStep, List.forall_mem_cons.mpr ⟨hb.inStep, hall⟩⟩
  | cutBoot hr inputs version events hb ih =>
    obtain ⟨-, hall⟩ := ih fun r hr => hresets r (List.mem_cons_of_mem _ hr)
    exact ⟨fun h => absurd h (by decide), List.forall_mem_cons.mpr ⟨trivial, hall⟩⟩
  | cutRequest hr r hv hb ih =>
    obtain ⟨-, hall⟩ := ih fun r hr => hresets r (List.mem_cons_of_mem _ hr)
    exact ⟨fun h => absurd h (by decide), List.forall_mem_cons.mpr ⟨trivial, hall⟩⟩
  | request hr r hv hb ih =>
    obtain ⟨hw, hall⟩ := ih fun r hr => hresets r (List.mem_cons_of_mem _ hr)
    subst hb
    have hstep : (CutEntry.request r).InStep := by
      by_cases hreset : r.resets = true
      · refine ⟨(hv.inStep_of_resets hreset).mpr (hresets r List.mem_cons_self hreset), fun h => ?_⟩
        rw [hv.pinChecks_of_resets hreset] at h
        cases h
      · exact hv.inStep (by simpa using hreset) hr.tries_le (hw rfl)
    exact ⟨fun _ => hstep.1, List.forall_mem_cons.mpr ⟨hstep, hall⟩⟩

/-- **The counters are in step in all states of a run, and full behind every correct PIN, exactly when
every reset of the run finds the attempts of the power cycle complete.** -/
theorem counters_in_step_iff {h : List CutEntry} {p : Power} {w : World} (hr : CutRun P h p w) :
    ((p = .on → w.InStep) ∧ ∀ e ∈ h, e.InStep) ↔
      ∀ r, CutEntry.request r ∈ h → r.resets = true → r.before.pinBootAttemptsLeft = 3 := by
  refine ⟨?_, hr.inStep⟩
  rintro ⟨-, hall⟩ r hmem hreset
  exact ((hr.valid hmem).inStep_of_resets hreset).mp (hall _ hmem).1

/-- A PIN is set and entered wrong, and the authenticator is reset after a power cycle. -/
theorem counters_in_step_iff_power_cycle : ∃ h w, CutRun simPlatform h .on w ∧
    (∃ r, CutEntry.request r ∈ h ∧ r.resets = true) ∧ ∀ e ∈ h, e.InStep := by
  have heval : ((runSteps simPlatform simStart [.serve (touched 6 (setPinRequest "1234")),
      .serve (touched 6 (getTokenRequest "0000" 1 "a")), .cutServe (touched 4 []) 0, .serve (touched 7 [])]).map
      fun x => x.2.map fun
        | .request r => some (r.resets, r.before.pinBootAttemptsLeft)
        | _ => none)
      = some [some (true, 3), none, none, some (false, 3), some (false, 3)] := by
    decide +kernel
  obtain ⟨⟨w, es⟩, hrun, hes⟩ := Option.map_eq_some_iff.mp heval
  have hcut := runSteps_cutRun cutRun_simStart hrun
  have hresets : ∀ r, CutEntry.request r ∈ es ++ [.boot simStart] → r.resets = true →
      r.before.pinBootAttemptsLeft = 3 := by
    intro r hr hreset
    have hr' : CutEntry.request r ∈ es := by simpa using hr
    have hmem : some (r.resets, r.before.pinBootAttemptsLeft)
        ∈ [some (true, 3), none, none, some (false, 3), some (false, 3)] := by
      rw [← hes]
      exact List.mem_map.mpr ⟨_, hr', rfl⟩
    rw [hreset] at hmem
    simpa using hmem
  have hone : ∃ r, CutEntry.request r ∈ es ∧ r.resets = true := by
    have hin : some (true, (3 : Int8)) ∈ [some (true, 3), none, none, some (false, 3), some (false, 3)] := by
      simp
    rw [← hes] at hin
    obtain ⟨e, he, heq⟩ := List.mem_map.mp hin
    cases e with
    | request r => exact ⟨r, he, (Prod.mk.inj (Option.some.inj heq)).1⟩
    | _ => cases heq
  obtain ⟨r, hr, hreset⟩ := hone
  exact ⟨_, w, hcut, ⟨r, List.mem_append_left _ hr, hreset⟩,
    ((counters_in_step_iff hcut).mpr hresets).2⟩

/-- A wrong PIN and then a reset: one attempt of the power cycle stays missing. -/
theorem reset_keeps_boot_attempts :
    ¬ ∀ h w, CutRun simPlatform h .on w → w.state.remainingTries = 8 → w.pinBootAttemptsLeft = 3 := by
  have heval : ((runSteps simPlatform simStart [.serve (touched 6 (setPinRequest "1234")),
      .serve (touched 6 (getTokenRequest "0000" 1 "a")), .serve (touched 7 [])]).map
      fun x => (x.1.state.remainingTries, x.1.pinBootAttemptsLeft)) = some (8, 2) := by
    decide +kernel
  intro hall
  obtain ⟨⟨w, es⟩, hrun, hcounts⟩ := Option.map_eq_some_iff.mp heval
  obtain ⟨htries, hboot⟩ := Prod.mk.inj hcounts
  have h3 := hall _ _ (runSteps_cutRun cutRun_simStart hrun) htries
  have h2 : w.pinBootAttemptsLeft = 2 := hboot
  rw [h2] at h3
  exact absurd h3 (by decide)

end TkeyFido2
