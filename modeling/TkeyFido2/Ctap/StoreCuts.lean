import Mathlib.Algebra.Order.BigOperators.Group.Finset
import TkeyFido2.Ctap.PowerCuts

/-!
# The number of resident keys across power cuts

A new record is written before the state that counts it.  As long as the power does not go between the
two, the number in the state file is never below the number of records.
-/

namespace TkeyFido2

open Cbor Prog Journal

/-! ## The number in the file -/

section Counting

variable {P : Platform}

/-- The number of records on disk. -/
def Disk.stored (d : Disk) : Nat := ∑ n, (d.rkFiles n).length

/-- The file counts at least the records there are, and at most 200. -/
def Disk.Counted (P : Platform) (d : Disk) : Prop :=
  ∃ s : AuthState, d.stateFile = stateFileOf P s ∧ s.version = stateVersion ∧
    d.stored ≤ s.rkStored.toNat ∧ s.rkStored.toNat ≤ 200

/-- The same of a device that may be new. -/
def Disk.CountedOrNew (P : Platform) (d : Disk) : Prop :=
  (d.stateFile = [] ∧ d.stored = 0) ∨ d.Counted P

/-- A cut behind the commit of a file that a record was appended to. -/
def Uncounted (P : Platform) (d₀ : Disk) (events : List Event) : Prop :=
  ∃ before n l, events = before ++ [.rkWritten n l] ∧
    ((replay (Disk.write P) d₀ before).rkFiles n).length < l.length

/-- What holds of the files at every point of a request or a start that began with the files `d₀`. -/
abbrev Countable (P : Platform) (d₀ : Disk) (w : World) : Prop :=
  Durable (Disk.write P) (Uncounted P d₀) (fun _ => Disk.CountedOrNew P) d₀ w.journal w.disk

/-- The number in memory and in the file covers the records. -/
structure Numbered (P : Platform) (d₀ : Disk) (w : World) : Prop where
  synced : Synced P w
  durable : Countable P d₀ w
  stored : w.stored ≤ w.state.rkStored.toNat
  bounded : w.state.rkStored.toNat ≤ 200

variable {d₀ : Disk}

theorem ignores_numbered :
    Ignores [.inputs, .token, .issued, .verified, .usage, .hmacOutputs, .signatures, .rkChanges, .assertionEvents,
      .counter, .ga, .cm, .upDisabled, .pinChecks, .boot, .keys, .fixed] (Numbered P d₀) := by
  intro w w' h hw
  have hjournal : w'.journal = w.journal := h .journal (by decide)
  have hfiles : w'.rkFiles = w.rkFiles := h .rkFiles (by decide)
  have hdisk : w'.disk = w.disk := by
    unfold World.disk
    rw [show w'.stateFile = w.stateFile from h .stateFile (by decide), hfiles]
  have hstate : w'.state = w.state :=
    World.state_ext (h .pinState (by decide)) (h .rkStored (by decide)) (h .identity (by decide))
  have hstored : w'.stored = w.stored := by unfold World.stored; rw [hfiles]
  refine ⟨ignores_synced.mono (by decide) w w' h hw.synced, ?_, by rw [hstored, hstate]; exact hw.stored,
    by rw [hstate]; exact hw.bounded⟩
  unfold Countable
  rw [hjournal, hdisk]
  exact hw.durable

theorem Numbered.counted {w : World} (hw : Numbered P d₀ w) : w.disk.Counted P :=
  ⟨w.state, hw.synced.file, hw.synced.version, hw.stored, hw.bounded⟩

/-- A state that was just written. -/
theorem Countable.flushed {w : World} (h : Countable P d₀ w) (hv : w.state.version = stateVersion)
    (hs : w.stored ≤ w.state.rkStored.toNat) (hb : w.state.rkStored.toNat ≤ 200) :
    Numbered P d₀ (w.flushed P) := by
  refine ⟨⟨hv, rfl⟩, ?_, hs, hb⟩
  have := h.concat (e := .stateWritten w.state) fun _ => .inr ⟨w.state, rfl, hv, hs, hb⟩
  rwa [← journal_flushed (P := P)] at this

/-- A change of the state that leaves the number alone, and is written. -/
theorem numbered_modify_write {f : World → World}
    (hf : ∀ w, (f w).state.version = w.state.version ∧ (f w).state.rkStored = w.state.rkStored ∧
      (f w).journal = w.journal ∧ (f w).disk = w.disk) :
    Preserves (Numbered P d₀) (do modify f; authenticatorWriteState P) := by
  rw [preserves_iff_ends]
  intro w hw
  rw [ends_bind, ends_modify]
  obtain ⟨hv, hn, hj, hd⟩ := hf w
  have hdur : Countable P d₀ (f w) := by
    unfold Countable
    rw [hj, hd]
    exact hw.durable
  have hstored : (f w).stored = w.stored := by
    unfold World.stored
    rw [show (f w).rkFiles = w.rkFiles from congrArg Disk.rkFiles hd]
  have hcount : (f w).state.rkStored.toNat = w.state.rkStored.toNat := congrArg UInt16.toNat hn
  have hwritten : Numbered P d₀ ((f w).flushed P) :=
    hdur.flushed (hv.trans hw.synced.version) (hstored.trans_le (hw.stored.trans_eq hcount.symm))
      (hcount.trans_le hw.bounded)
  exact ends_of_ok (authenticatorWriteState_eq _) hwritten

/-- A comparison is no write. -/
theorem numbered_verifyAgainstStoredPin {h : Bytes 16} :
    Preserves (Numbered P d₀) (verifyAgainstStoredPin P h) := by
  intro w hw
  let matched : Bool := h = P.prims.aesCbcDecrypt P.keyPinEnc w.state.pinHashIv w.state.pinHashEnc
  let w₁ : World := { w with trace := w.trace ++ [.pinCompared matched] }
  have hj : w₁.journal = w.journal ++ [.pinCompared matched] := by
    simp [World.journal, w₁, Event.isJournal]
  show Numbered P d₀ w₁
  have hd := hw.durable.concat (e := .pinCompared matched) fun _ => .inr hw.counted
  rw [← hj] at hd
  exact ⟨⟨hw.synced.version, hw.synced.file⟩, hd, hw.stored, hw.bounded⟩

theorem numbered_decrementPinAttempts : Preserves (Numbered P d₀) (decrementPinAttempts P) := by
  unfold decrementPinAttempts
  refine Preserves.bind (preserves_modify fun w hw => ?_) fun _ => preserves_get.bind fun w => ?_
  · split
    · exact ⟨⟨hw.synced.version, hw.synced.file⟩, hw.durable, hw.stored, hw.bounded⟩
    · exact hw
  refine preserves_ite (fun _ => ?_) fun _ => preserves_pure
  rw [← bind_assoc]
  refine Preserves.bind ?_ fun _ => preserves_get.bind fun _ => ?_
  · exact numbered_modify_write fun _ => ⟨rfl, rfl, rfl, rfl⟩
  · exact preserves_ite (fun _ => numbered_modify_write fun _ => ⟨rfl, rfl, rfl, rfl⟩) fun _ =>
      preserves_pure

theorem numbered_resetPinAttempts : Preserves (Numbered P d₀) (resetPinAttempts P) :=
  preserves_get.bind fun _ =>
    preserves_ite (fun _ => numbered_modify_write fun _ => ⟨rfl, rfl, rfl, rfl⟩) fun _ => preserves_pure

theorem numbered_storePin {pin : List UInt8} : Preserves (Numbered P d₀) (storePin P pin) :=
  (ignores_numbered.preserves touches_ctapGenerateRng (by decide)).bind fun _ =>
    numbered_modify_write fun _ => ⟨rfl, rfl, rfl, rfl⟩

/-! ## Records -/

/-- A file that does not get longer. -/
theorem numbered_putRkFile {w : World} {n : Fin 16} {l : List ResidentKey} {c : RkChange} (hw : Numbered P d₀ w)
    (hl : l.length ≤ (w.rkFiles n).length) : Numbered P d₀ (w.putRkFile n l c) := by
  have hle : (w.putRkFile n l c).stored ≤ w.stored := by
    have := stored_update w n l
    change (w.putRkFile n l c).stored + _ = _ at this
    omega
  have hstored := hw.stored
  have hcount : (w.putRkFile n l c).stored ≤ w.state.rkStored.toNat := by omega
  refine ⟨⟨hw.synced.version, hw.synced.file⟩, ?_, hcount, hw.bounded⟩
  have := hw.durable.concat (e := .rkWritten n l) fun _ =>
    .inr ⟨w.state, hw.synced.file, hw.synced.version, hcount, hw.bounded⟩
  rwa [← journal_putRkFile (c := c)] at this

/-- A record is appended: the files are in order again once the state is written. -/
theorem countable_putRkFile {w : World} {n : Fin 16} {l : List ResidentKey} {c : RkChange} (hw : Numbered P d₀ w)
    (hl : (w.rkFiles n).length < l.length) : Countable P d₀ (w.putRkFile n l c) := by
  have := hw.durable.concat (e := .rkWritten n l) fun hgap => by
    refine absurd ⟨w.journal, n, l, rfl, ?_⟩ hgap
    rw [hw.durable.replayed]
    exact hl
  rwa [← journal_putRkFile (c := c)] at this

theorem keptByStoring_numbered : KeptByStoring P (Numbered P d₀) := by
  intro w rk hw hrk
  unfold ctapOverwriteRk
  rw [ends_bind, ends_get]
  dsimp only
  cases h : overwriteFirst rk (w.rkFiles (rkFile rk.id.rpIdLookup)) with
  | some l =>
    have hlen : l.length = (w.rkFiles (rkFile rk.id.rpIdLookup)).length := by
      simpa using congrArg List.length (overwriteFirst_some h).1
    exact numbered_putRkFile hw hlen.le
  | none =>
    cases hrk with
    | update r hr hid huser =>
      have hkey : rk.key = r.key := by rw [ResidentKey.key, hid, huser, ResidentKey.key]
      refine absurd (List.mem_map_of_mem (f := ResidentKey.key) hr) ?_
      rw [← hkey]
      exact overwriteFirst_none h
    | new hroom =>
      let n := rkFile rk.id.rpIdLookup
      let w₁ := w.putRkFile n (w.rkFiles n ++ [rk]) (.stored rk)
      have hlonger : (w.rkFiles n).length < (w.rkFiles n ++ [rk]).length := by simp
      have hdur : Countable P d₀ w₁ := countable_putRkFile hw hlonger
      have hstored := hw.stored
      have hone : w₁.stored = w.stored + 1 := by
        have := stored_update w n (w.rkFiles n ++ [rk])
        change w₁.stored + _ = _ at this
        rw [List.length_append, List.length_singleton] at this
        omega
      have hsucc := toNat_succ hroom
      have hwritten : Numbered P d₀ (World.flushed P
          { w₁ with state := { w₁.state with rkStored := w₁.state.rkStored + 1 } }) := by
        refine Countable.flushed (w := { w₁ with state := { w₁.state with
          rkStored := w₁.state.rkStored + 1 } }) hdur hw.synced.version ?_ ?_
        · show w₁.stored ≤ (w.state.rkStored + 1).toNat
          omega
        · show (w.state.rkStored + 1).toNat ≤ 200
          omega
      rw [ends_bind]
      refine ends_of_ok (writeRkFile_eq _ _ _ w) ?_
      exact ends_of_ok (authenticatorWriteState_eq _) hwritten

theorem numbered_ctapDeleteRk {id : CredentialId} : Preserves (Numbered P d₀) (ctapDeleteRk P id) := by
  refine preserves_of_ends fun w hw => ?_
  unfold ctapDeleteRk
  rw [ends_bind, ends_get]
  cases h : deleteFirst id (w.rkFiles (rkFile id.rpIdLookup)) with
  | none => exact hw
  | some l =>
    obtain ⟨-, hlen⟩ := deleteFirst_some h
    let n := rkFile id.rpIdLookup
    let c := RkChange.deleted (recordToDelete id (w.rkFiles n))
    let w₁ := w.putRkFile n l c
    have hw₁ : Numbered P d₀ w₁ := numbered_putRkFile hw (Nat.le.intro hlen)
    have hstored := hw.stored
    have hbounded := hw.bounded
    have hone : w₁.stored + 1 = w.stored := by
      have := stored_update w n l
      change w₁.stored + _ = _ at this
      change l.length + 1 = (w.rkFiles n).length at hlen
      omega
    have hpred := toNat_pred (x := w.state.rkStored) (by omega)
    have hwritten : Numbered P d₀ (World.flushed P
        { w₁ with state := { w₁.state with rkStored := w₁.state.rkStored - 1 } }) := by
      refine Countable.flushed (w := { w₁ with state := { w₁.state with
        rkStored := w₁.state.rkStored - 1 } }) hw₁.durable hw.synced.version ?_ ?_
      · show w₁.stored ≤ (w.state.rkStored - 1).toNat
        omega
      · show (w.state.rkStored - 1).toNat ≤ 200
        omega
    show Ends (do writeRkFile n l c; ctapDecrementRkStore P; pure true) w _ _
    rw [ends_bind]
    refine ends_of_ok (writeRkFile_eq _ _ _ w) ?_
    rw [ends_bind]
    exact ends_of_ok (authenticatorWriteState_eq _) hwritten

/-! ## Commands -/

theorem Disk.stored_remove_le (d : Disk) (n : Fin 16) : (d.write P (.rkWritten n [])).stored ≤ d.stored := by
  refine Finset.sum_le_sum fun m _ => ?_
  show (Function.update d.rkFiles n [] m).length ≤ (d.rkFiles m).length
  by_cases hm : m = n
  · subst hm
    simp
  · rw [Function.update_of_ne hm]

/-- Files are removed. -/
theorem Disk.stored_removals_le {d : Disk} {q : List Event} (hq : ∀ e ∈ q, ∃ n, e = .rkWritten n []) :
    (replay (Disk.write P) d q).stored ≤ d.stored := by
  induction q generalizing d with
  | nil => exact le_rfl
  | cons e q ih =>
    obtain ⟨n, rfl⟩ := hq e (List.mem_cons_self ..)
    exact (ih fun e he => hq e (List.mem_cons_of_mem _ he)).trans (d.stored_remove_le n)

theorem mem_removals {q : List Event} (hq : q <+: removals) : ∀ e ∈ q, ∃ n, e = .rkWritten n [] := by
  intro e he
  obtain ⟨n, -, rfl⟩ := List.mem_map.mp (hq.subset he)
  exact ⟨n, rfl⟩

/-- A new state is written behind the removal of the files. -/
theorem Countable.stateInit_flushed {w : World} (hd : Countable P d₀ w)
    (hbefore : w.disk.CountedOrNew P) : Numbered P d₀ (w.stateInit.flushed P) := by
  have hinit : Countable P d₀ w.stateInit := by
    have := hd.append (k := removals) fun q e hq => by
      have hfile := stateFile_replay (P := P) (d := w.disk) (stateWritten_notMem_removals hq)
      have hle := Disk.stored_removals_le (P := P) (d := w.disk) (mem_removals hq)
      rcases hbefore with ⟨hnew, hnone⟩ | ⟨s, hs, hv, hn, hb⟩
      · exact .inl ⟨hfile.trans hnew, by omega⟩
      · exact .inr ⟨s, hfile.trans hs, hv, hle.trans hn, hb⟩
    rwa [← disk_stateInit, ← journal_stateInit] at this
  have hstored : w.stateInit.stored = 0 := by simp [World.stored, World.stateInit]
  exact hinit.flushed rfl (hstored.trans_le (Nat.zero_le _)) (by decide : (0 : UInt16).toNat ≤ 200)

theorem numbered_ctapReset : Preserves (Numbered P d₀) (ctapReset P) :=
  preserves_ctapReset (ignores_numbered.mono (by decide)) fun _ hw =>
    hw.durable.stateInit_flushed (.inr hw.counted)

theorem numbered_dispatch (c : Command) (request : List UInt8) :
    Preserves (Numbered P d₀) (dispatch P c request) :=
  preserves_dispatch (ignores_numbered.mono (by decide))
    (preserves_ctapMakeCredential (ignores_numbered.mono (by decide)) fun _ _ _ _ _ _ hn =>
      keptByStoring_numbered.makeAttestedData (ignores_numbered.mono (by decide)) hn)
    (preserves_ctapClientPin (ignores_numbered.mono (by decide))
      (fun hk => (preserves_comparePin (ignores_numbered.mono (by decide))
        (fun _ => numbered_verifyAgainstStoredPin) numbered_decrementPinAttempts
        numbered_resetPinAttempts hk).leads fun _ h => h.1)
      fun _ => numbered_storePin)
    (preserves_ctapCredentialManagement (ignores_numbered.mono (by decide))
      (fun _ => preserves_deleteCredential fun _ => numbered_ctapDeleteRk) fun _ =>
      keptByStoring_numbered.updateUserInformation (ignores_numbered.mono (by decide)))
    c fun _ => numbered_ctapReset

/-- The state of a start: the number in the file is taken over, or a new state is written. -/
theorem numbered_loadState {w : World} (hj : w.journal = []) (hd : w.disk.CountedOrNew P) :
    Ends (loadState P) w (fun _ => Numbered P w.disk) fun _ _ => False := by
  have hstart : Countable P w.disk w := by
    unfold Countable
    rw [hj]
    exact durable_nil hd
  rcases hd with hnew | ⟨s, hfile, hv, hn, hb⟩
  · exact ends_of_ok (loadState_new hnew.1) (hstart.stateInit_flushed (.inl hnew))
  · have hread : readEnvelope P w.state w.stateFile = .ok (some s) := by
      rw [show w.stateFile = stateFileOf P s from hfile, readEnvelope_stateFileOf P _ hv]
    exact ends_of_ok (loadState_stored hread) ⟨⟨hv, hfile⟩, hstart, hn, hb⟩

theorem numbered_ctapInit {w : World} (hj : w.journal = []) (hd : w.disk.CountedOrNew P) :
    Numbered P w.disk (final (ctapInit P) w) :=
  final_ctapInit (ignores_numbered.mono (by decide))
    (numbered_modify_write fun _ => ⟨rfl, rfl, rfl, rfl⟩) (numbered_loadState hj hd)

end Counting

/-! ## getCredsMetadata -/

section Metadata

variable {P : Platform} {w : World}

/-- The response of getCredsMetadata: a map of the two numbers. -/
def metadataBytes (existing remaining : Nat) : List UInt8 :=
  Encoder.numberBytes 2 5 ++ Encoder.numberBytes 1 0 ++ Encoder.numberBytes existing 0
    ++ Encoder.numberBytes 2 0 ++ Encoder.numberBytes remaining 0

/-- One number more in a response with room for it. -/
theorem encode_int_bind {α : Type} {e : Encoder} {v : Int} {k : Encoder → CtapM α} (hv : 0 ≤ v)
    (h : 9 ≤ e.room) :
    (encode (e.int v) >>= k) w = k { e with
      out := e.out ++ Encoder.numberBytes v.toNat 0
      room := e.room - (Encoder.numberBytes v.toNat 0).length
      remaining := e.remaining - 1 } w := by
  have hint : e.int v = .ok { e with
      out := e.out ++ Encoder.numberBytes v.toNat 0
      room := e.room - (Encoder.numberBytes v.toNat 0).length
      remaining := e.remaining - 1 } := by
    unfold Encoder.int
    rw [if_pos hv]
    exact Encoder.append_eq ((length_numberBytes_le v.toNat 0).trans h)
  rw [hint]
  rfl

/-- The encoder has room for both numbers, whatever they are. -/
theorem cborEncodeCredentialMetadata_eq : cborEncodeCredentialMetadata w
    = .ok (metadataBytes w.state.rkStored.toNat
      ((2 ^ 32 + 200 - (w.state.rkStored.toNat : Int)) % 2 ^ 32).toNat) w := by
  have hn := length_numberBytes_le w.state.rkStored.toNat 0
  unfold cborEncodeCredentialMetadata
  have hmap : encode (responseEncoder.createMap 2) w
      = .ok { out := Encoder.numberBytes 2 5, room := 1199, remaining := 5 } w := rfl
  rw [get_bind, bind_of_ok hmap]
  rw [encode_int_bind (by decide) (by decide), encode_int_bind (Int.natCast_nonneg _) (by decide),
    encode_int_bind (by decide) ?_, encode_int_bind (Int.emod_nonneg _ (by decide)) ?_]
  · rfl
  · show 9 ≤ 1198 - (Encoder.numberBytes w.state.rkStored.toNat 0).length - 1
    omega
  · show 9 ≤ 1198 - (Encoder.numberBytes w.state.rkStored.toNat 0).length
    omega

/-- A request for the metadata that succeeds. -/
theorem Served.Valid.metadata {r : Served} (hv : r.Valid P) {CM : CredMgmt}
    (hc : commandOf r.cmd = .credentialManagement)
    (hparse : parseCredentialManagementRequest r.request = .ok CM) (hsub : CM.subCommand = 1)
    (hok : r.status = .ok) :
    r.response = metadataBytes r.before.state.rkStored.toNat
      ((2 ^ 32 + 200 - (r.before.state.rkStored.toNat : Int)) % 2 ^ 32).toNat := by
  obtain ⟨w₁, -, ⟨-, hd⟩ | ⟨e, he, -⟩⟩ := hv.run
  · rw [hc] at hd
    obtain ⟨-, hrun⟩ := dispatch_ok hd
    change ctapCredentialManagement P r.request _ = _ at hrun
    unfold ctapCredentialManagement at hrun
    obtain ⟨CM', hparse', hrun⟩ := ctapCheck_bind_eq_ok.mp hrun
    obtain rfl : CM = CM' := Except.ok.inj (hparse.symm.trans hparse')
    obtain ⟨_, w₂, hver, hrun⟩ := bind_eq_ok.mp hrun
    have hcmd : credMgmtCommand P CM = cborEncodeCredentialMetadata := by
      unfold credMgmtCommand
      rw [hsub]
      rfl
    have hcount : w₂.state.rkStored = (r.before.withInputs r.after.inputs).state.rkStored :=
      (touches_verifyPinAuthForCredentialManagement .rkStored (by decide)).ok hver
    rw [hcmd, cborEncodeCredentialMetadata_eq, hcount] at hrun
    exact (EStateM.Result.ok.inj hrun).1.symm
  · rw [he] at hok
    cases hok

end Metadata

/-! ## Runs -/

section Runs

variable {P : Platform}

/-- The cut is not between the commit of an appended record and the write of the state that counts
it. -/
def Interrupted.Counted (P : Platform) (r : Interrupted) : Prop :=
  ¬ Uncounted P r.before.disk (r.events.filter Event.isJournal)

/-- The number covers the records in memory and on disk; while the power is off, on disk. -/
structure CutNumbered (P : Platform) (p : Power) (w : World) : Prop where
  disk : w.disk.CountedOrNew P
  synced : p = .on → Synced P w
  stored : p = .on → w.stored ≤ w.state.rkStored.toNat
  bounded : p = .on → w.state.rkStored.toNat ≤ 200

theorem Numbered.cutNumbered {d₀ : Disk} {w : World} (hw : Numbered P d₀ w) : CutNumbered P .on w :=
  ⟨.inr hw.counted, fun _ => hw.synced, fun _ => hw.stored, fun _ => hw.bounded⟩

theorem Numbered.cut {w₀ w : World} {events : List Event} (hw : Numbered P w₀.disk w)
    (he : events <+: w.trace) (hgap : ¬ Uncounted P w₀.disk (events.filter Event.isJournal)) :
    CutNumbered P .off (w₀.cut P events) := by
  have hcut := hw.durable.cuts _ (he.filter Event.isJournal) hgap
  rw [← disk_cut] at hcut
  exact ⟨hcut, nofun, nofun, nofun⟩

/-- A request that begins with the records covered. -/
theorem CutNumbered.request {w : World} (hw : CutNumbered P .on w) (cmd : UInt8) (request : List UInt8)
    (inputs : Inputs) :
    Numbered P w.disk (final (ctapRequest P cmd request) (w.withInputs inputs)) := by
  refine preserves_ctapRequest (ignores_numbered.mono (by decide))
    (numbered_dispatch (commandOf cmd) request) _ ?_
  exact ⟨⟨(hw.synced rfl).version, (hw.synced rfl).file⟩, durable_nil hw.disk, hw.stored rfl,
    hw.bounded rfl⟩

/-- No record is written, only files are removed. -/
def World.OnlyRemoves (w : World) : Prop := ∀ n l, .rkWritten n l ∈ w.journal → l = []

theorem onlyRemoves_flushed {w : World} (h : w.OnlyRemoves) : (w.flushed P).OnlyRemoves := by
  intro n l hl
  rw [journal_flushed] at hl
  exact h n l (by simpa using hl)

theorem onlyRemoves_ctapInit {w : World} (hj : w.journal = []) (hd : w.disk.CountedOrNew P) :
    (final (ctapInit P) w).OnlyRemoves := by
  have hstart : w.OnlyRemoves := by
    intro n l hl
    rw [hj] at hl
    cases hl
  refine final_ctapInit ?_ ?_ ?_
  · intro v v' h hv n l hl
    rw [show v'.journal = v.journal from h .journal (by decide)] at hl
    exact hv n l hl
  · intro v hv
    have hrun : updateAppVersion P v = .ok () (World.flushed P
        { v with state := { v.state with appVersion := v.appVersion } }) := authenticatorWriteState_eq _
    rw [final_of_ok hrun]
    exact onlyRemoves_flushed hv
  · rcases hd with hnew | ⟨s, hfile, hv, -⟩
    · refine ends_of_ok (loadState_new hnew.1) (onlyRemoves_flushed fun n l hl => ?_)
      rw [journal_stateInit, hj, List.nil_append] at hl
      obtain ⟨m, hm⟩ := mem_removals List.prefix_rfl _ hl
      cases hm
      rfl
    · have hread : readEnvelope P w.state w.stateFile = .ok (some s) := by
        rw [show w.stateFile = stateFileOf P s from hfile, readEnvelope_stateFileOf P _ hv]
      exact ends_of_ok (loadState_stored hread) hstart

/-- A start has no gap. -/
theorem World.OnlyRemoves.not_uncounted {w : World} (h : w.OnlyRemoves) {d₀ : Disk} {events : List Event}
    (he : events <+: w.trace) : ¬ Uncounted P d₀ (events.filter Event.isJournal) := by
  rintro ⟨before, n, l, heq, hlen⟩
  have hmem : .rkWritten n l ∈ events.filter Event.isJournal := by rw [heq]; simp
  rw [h n l ((he.filter Event.isJournal).subset hmem)] at hlen
  exact absurd hlen (Nat.not_lt_zero _)

theorem CutRun.numbered {h : List CutEntry} {p : Power} {w : World} (hr : CutRun P h p w)
    (hcuts : ∀ r, .cutRequest r ∈ h → r.Counted P) : CutNumbered P p w := by
  induction hr with
  | @new w hw =>
    have hnone : w.disk.stored = 0 := by simp [Disk.stored, World.disk, hw.2]
    have hoff : ¬ Power.off = .on := by decide
    exact ⟨.inl ⟨hw.1, hnone⟩, fun h => absurd h hoff, fun h => absurd h hoff, fun h => absurd h hoff⟩
  | @boot h p w w' hr hb ih =>
    have hw := ih fun r hr => hcuts r (List.mem_cons_of_mem _ hr)
    obtain ⟨inputs, version, hinit⟩ := hb
    have hall := numbered_ctapInit (w := (w.powerOn version).withInputs inputs) rfl hw.disk
    rw [final_of_ok hinit] at hall
    exact hall.cutNumbered
  | @cutBoot h p w hr inputs version events hb ih =>
    have hw := ih fun r hr => hcuts r (List.mem_cons_of_mem _ hr)
    have hall := numbered_ctapInit (w := (w.powerOn version).withInputs inputs) rfl hw.disk
    have hrem := onlyRemoves_ctapInit (w := (w.powerOn version).withInputs inputs) rfl hw.disk
    exact @Numbered.cut P w _ events hall hb (hrem.not_uncounted hb)
  | @request h w hr r hv hb ih =>
    have hw := ih fun r hr => hcuts r (List.mem_cons_of_mem _ hr)
    subst hb
    obtain ⟨inputs, hreq⟩ := hv
    have hend := hw.request r.cmd r.request inputs
    rw [final_of_ok hreq] at hend
    exact hend.cutNumbered
  | @cutRequest h w hr r hv hb ih =>
    have hw := ih fun r hr => hcuts r (List.mem_cons_of_mem _ hr)
    subst hb
    obtain ⟨inputs, hreq⟩ := hv
    exact (hw.request r.cmd r.request inputs).cut hreq (hcuts r (List.mem_cons_self ..))

/-- In every run in which the power may go at any point, but not between the commit of an appended record
and the write of the state that counts it: a deletion takes one from a number above zero, and
getCredsMetadata reports two numbers that add up to 200. -/
theorem interrupted_store_number_ok {h : List CutEntry} {w : World} (hr : CutRun P h .on w)
    (hcuts : ∀ r, CutEntry.cutRequest r ∈ h → r.Counted P) :
    (∀ id w', ctapDeleteRk P id w = .ok true w' →
      w'.state.rkStored.toNat + 1 = w.state.rkStored.toNat) ∧
    ∀ r : Served, r.Valid P → r.before = w → commandOf r.cmd = .credentialManagement →
      ∀ CM, parseCredentialManagementRequest r.request = .ok CM → CM.subCommand = 1 → r.status = .ok →
      ∃ existing remaining, existing + remaining = 200 ∧ r.response = metadataBytes existing remaining := by
  have hw := hr.numbered hcuts
  have hstored := hw.stored rfl
  have hbounded := hw.bounded rfl
  refine ⟨fun id w' hdel => ?_, fun r hv hb hc CM hparse hsub hok => ?_⟩
  · unfold ctapDeleteRk at hdel
    rw [get_bind] at hdel
    cases h : deleteFirst id (w.rkFiles (rkFile id.rpIdLookup)) with
    | none =>
      rw [h] at hdel
      cases hdel
    | some l =>
      obtain ⟨-, hlen⟩ := deleteFirst_some h
      have hsum := stored_update w (rkFile id.rpIdLookup) []
      rw [List.length_nil] at hsum
      have hpred := toNat_pred (x := w.state.rkStored) (by omega)
      rw [h] at hdel
      let n := rkFile id.rpIdLookup
      let c := RkChange.deleted (recordToDelete id (w.rkFiles n))
      have hrun : (do writeRkFile n l c; ctapDecrementRkStore P; pure true : CtapM Bool) w = .ok true w' := hdel
      have hdec : ctapDecrementRkStore P (w.putRkFile n l c) = .ok () _ := authenticatorWriteState_eq _
      rw [bind_of_ok (writeRkFile_eq n l c w), bind_of_ok hdec] at hrun
      obtain ⟨-, rfl⟩ := pure_eq_ok.mp hrun
      show (w.state.rkStored - 1).toNat + 1 = _
      omega
  · have hresp := hv.metadata hc hparse hsub hok
    rw [hb] at hresp
    refine ⟨w.state.rkStored.toNat, 200 - w.state.rkStored.toNat, by omega, ?_⟩
    rw [hresp]
    congr 1
    omega

/-- A credential is made with a cut behind some events; the first record is deleted after the start. -/
def deleteAfterCut (events : Nat) : Option (World × List CutEntry) :=
  (runSteps simPlatform simStart
      [.cutServe (touched 1 (encMap (makeCredentialMembers "a" 1))) events]).bind fun x =>
    (runSteps simPlatform x.1 [.serve (touched 6 (setPinRequest "1234")),
        .serve (touched 6 (getTokenRequest "1234" 4 "a")),
        .serve (touched 10 (credMgmtRequest 6
          [([1], encBytes (simSha256 (ascii "a")).toList),
            ([2], encCredential (x.1.records.head?.getD {}).id)]))]).map
      fun y => (y.1, y.2 ++ x.2)

theorem deleteAfterCut_run {n : Nat} {w : World} {es : List CutEntry} (h : deleteAfterCut n = some (w, es)) :
    CutRun simPlatform (es ++ [.boot simStart]) .on w := by
  obtain ⟨⟨w₁, es₁⟩, h₁, h⟩ := Option.bind_eq_some_iff.mp h
  obtain ⟨⟨w₂, es₂⟩, h₂, heq⟩ := Option.map_eq_some_iff.mp h
  obtain ⟨rfl, rfl⟩ := Prod.mk.inj heq
  have hrun := runSteps_cutRun (runSteps_cutRun cutRun_simStart h₁) h₂
  rwa [← List.append_assoc] at hrun

/-- Where the power went in a request, the last write was that of the state. -/
def CutEntry.endsWithState : CutEntry → Bool
  | .cutRequest r => match r.lastStep with
    | some (.stateWritten _) => true
    | _ => false
  | _ => true

def CutEntry.isCutRequest : CutEntry → Bool
  | .cutRequest _ => true
  | _ => false

theorem CutEntry.counted_of_endsWithState {r : Interrupted}
    (h : (CutEntry.cutRequest r).endsWithState = true) : r.Counted P := by
  rintro ⟨before, n, l, hevents, -⟩
  have hlast : r.lastStep = some (.rkWritten n l) := by
    unfold Interrupted.lastStep
    rw [hevents, List.getLast?_concat]
  simp only [CutEntry.endsWithState, hlast] at h
  cases h

/-- Histories that begin with a start and whose interrupted requests all end with the state. -/
theorem counted_of_all {es : List CutEntry} {w : World} (h : es.all CutEntry.endsWithState = true)
    (r : Interrupted) (hr : CutEntry.cutRequest r ∈ es ++ [.boot w]) : r.Counted P := by
  rcases List.mem_append.mp hr with hr | hr
  · exact CutEntry.counted_of_endsWithState (List.all_eq_true.mp h _ hr)
  · cases List.mem_singleton.mp hr

theorem exists_cutRequest {es : List CutEntry} {w : World} (h : es.any CutEntry.isCutRequest = true) :
    ∃ r, CutEntry.cutRequest r ∈ es ++ [.boot w] := by
  obtain ⟨e, he, hcut⟩ := List.any_eq_true.mp h
  cases e with
  | cutRequest r => exact ⟨r, List.mem_append_left _ he⟩
  | _ => cases hcut

/-- A cut behind both writes of a new credential: the number counts it. -/
theorem interrupted_store_number_ok_one_record :
    ∃ h w, CutRun simPlatform h .on w ∧ (∃ r, CutEntry.cutRequest r ∈ h) ∧
      w.state.rkStored.toNat = 1 ∧ ∀ id w', ctapDeleteRk simPlatform id w = .ok true w' →
        w'.state.rkStored.toNat + 1 = w.state.rkStored.toNat := by
  have heval : (runSteps simPlatform simStart
      [.cutServe (touched 1 (encMap (makeCredentialMembers "a" 1))) 5]).map
      (fun x => (x.2.all CutEntry.endsWithState, x.2.any CutEntry.isCutRequest,
        x.1.state.rkStored.toNat)) = some (true, true, 1) := by
    decide +kernel
  obtain ⟨⟨w, es⟩, hrs, hprops⟩ := Option.map_eq_some_iff.mp heval
  obtain ⟨hall, hrest⟩ := Prod.mk.inj hprops
  obtain ⟨hany, hnumber⟩ := Prod.mk.inj hrest
  have hrun := runSteps_cutRun cutRun_simStart hrs
  exact ⟨_, w, hrun, exists_cutRequest hany, hnumber,
    (interrupted_store_number_ok hrun (counted_of_all hall)).1⟩

/-- A cut between the two writes of a new credential: its deletion takes the number below zero. -/
theorem cut_wraps_store_number :
    ∃ h w r, CutRun simPlatform (.request r :: h) .on w ∧ r.status = .ok ∧
      r.before.state.rkStored.toNat = 0 ∧ w.state.rkStored.toNat = 65535 ∧
      ∃ existing remaining, existing + remaining ≠ 200 ∧
        cborEncodeCredentialMetadata w = .ok (metadataBytes existing remaining) w := by
  have heval : (deleteAfterCut 3).map (fun x => (x.2.head?.map fun
      | .request r => some (r.status, r.before.state.rkStored.toNat)
      | _ => none, x.1.state.rkStored.toNat)) = some (some (some (.ok, 0)), 65535) := by
    decide +kernel
  obtain ⟨⟨w, es⟩, hrs, hprops⟩ := Option.map_eq_some_iff.mp heval
  obtain ⟨hhead, hafter⟩ := Prod.mk.inj hprops
  obtain ⟨e, he, hr⟩ := Option.map_eq_some_iff.mp hhead
  obtain ⟨es', rfl⟩ := List.head?_eq_some_iff.mp he
  cases e with
  | request r =>
    obtain ⟨hok, hbefore⟩ := Prod.mk.inj (Option.some.inj hr)
    change w.state.rkStored.toNat = 65535 at hafter
    have hmeta := cborEncodeCredentialMetadata_eq (w := w)
    rw [hafter] at hmeta
    exact ⟨_, w, r, deleteAfterCut_run hrs, hok, hbefore, hafter, _, _, by decide, hmeta⟩
  | _ => cases hr

end Runs

end TkeyFido2
