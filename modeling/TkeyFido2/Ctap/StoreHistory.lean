import TkeyFido2.Lib.Ledger
import TkeyFido2.Ctap.NextAssertion
import TkeyFido2.Ctap.Filter

/-!
# Which credentials exist

`ctap_verify_rk_exists` searches the file of an RP for a credential ID.  What it finds is decided by the
last change that the history of the device made for an RP and user.
-/

namespace TkeyFido2

open Cbor Prog Ledger

variable {P : Platform}

/-! ## Records -/

section Files

variable {rk r : ResidentKey} {id : CredentialId} {l l' : List ResidentKey}

/-- `ctap_overwrite_rk` where it finds a record: exactly that one is replaced. -/
theorem mem_overwriteFirst (hl : (l.map ResidentKey.key).Nodup) (h : overwriteFirst rk l = some l') :
    r ∈ l' ↔ r = rk ∨ (r ∈ l ∧ r.key ≠ rk.key) := by
  induction l generalizing l' with
  | nil => simp [overwriteFirst] at h
  | cons a l ih =>
    rw [List.map_cons, List.nodup_cons] at hl
    unfold overwriteFirst at h
    split at h
    · rename_i hkey
      have hkey' : a.key = rk.key := Prod.ext hkey.1 hkey.2
      obtain rfl := Option.some.inj h
      have hother (hr : r ∈ l) : r.key ≠ rk.key := by
        intro heq
        rw [hkey', ← heq] at hl
        exact hl.1 (List.mem_map_of_mem hr)
      rw [List.mem_cons, List.mem_cons]
      constructor
      · rintro (rfl | hr)
        · exact .inl rfl
        · exact .inr ⟨.inr hr, hother hr⟩
      · rintro (rfl | ⟨rfl | hr, hne⟩)
        · exact .inl rfl
        · exact absurd hkey' hne
        · exact .inr hr
    · rename_i hkey
      have hkey' : a.key ≠ rk.key := fun heq => hkey (Prod.mk.inj heq)
      obtain ⟨l₁, hl₁, rfl⟩ := Option.map_eq_some_iff.mp h
      rw [List.mem_cons, List.mem_cons, ih hl.2 hl₁]
      constructor
      · rintro (rfl | rfl | ⟨hr, hne⟩)
        · exact .inr ⟨.inl rfl, hkey'⟩
        · exact .inl rfl
        · exact .inr ⟨.inr hr, hne⟩
      · rintro (rfl | ⟨rfl | hr, hne⟩)
        · exact .inr (.inl rfl)
        · exact .inl rfl
        · exact .inr (.inr ⟨hr, hne⟩)

/-- `ctap_overwrite_rk` where it appends. -/
theorem mem_append_of_overwriteFirst (h : overwriteFirst rk l = none) :
    r ∈ l ++ [rk] ↔ r = rk ∨ (r ∈ l ∧ r.key ≠ rk.key) := by
  have hnew := overwriteFirst_none h
  rw [List.mem_append, List.mem_singleton]
  constructor
  · rintro (hr | rfl)
    · refine .inr ⟨hr, fun heq => hnew ?_⟩
      rw [← heq]
      exact List.mem_map_of_mem hr
    · exact .inl rfl
  · rintro (rfl | ⟨hr, -⟩)
    · exact .inr rfl
    · exact .inl hr

/-- `ctap_delete_rk`: exactly the record that it stops at is removed. -/
theorem mem_deleteFirst (hl : (l.map ResidentKey.key).Nodup) (h : deleteFirst id l = some l') :
    recordToDelete id l ∈ l ∧ (r ∈ l' ↔ r ∈ l ∧ r.key ≠ (recordToDelete id l).key) := by
  induction l generalizing l' with
  | nil => simp [deleteFirst] at h
  | cons a l ih =>
    rw [List.map_cons, List.nodup_cons] at hl
    unfold deleteFirst at h
    split at h
    · rename_i hmatch
      have hrec : recordToDelete id (a :: l) = a := by
        unfold recordToDelete
        rw [List.find?_cons_of_pos (by simpa using hmatch), Option.getD_some]
      obtain rfl := Option.some.inj h
      rw [hrec]
      refine ⟨List.mem_cons_self .., ?_⟩
      rw [List.mem_cons]
      constructor
      · intro hr
        refine ⟨.inr hr, fun heq => hl.1 ?_⟩
        rw [← heq]
        exact List.mem_map_of_mem hr
      · rintro ⟨rfl | hr, hne⟩
        · exact absurd rfl hne
        · exact hr
    · rename_i hmatch
      have hrec : recordToDelete id (a :: l) = recordToDelete id l := by
        unfold recordToDelete
        rw [List.find?_cons_of_neg (by simpa using hmatch)]
      obtain ⟨l₁, hl₁, rfl⟩ := Option.map_eq_some_iff.mp h
      obtain ⟨hmem, hiff⟩ := ih hl.2 hl₁
      rw [hrec]
      refine ⟨List.mem_cons_of_mem _ hmem, ?_⟩
      rw [List.mem_cons, List.mem_cons, hiff]
      constructor
      · rintro (rfl | ⟨hr, hne⟩)
        · refine ⟨.inl rfl, fun heq => hl.1 ?_⟩
          rw [heq]
          exact List.mem_map_of_mem hmem
        · exact ⟨.inr hr, hne⟩
      · rintro ⟨rfl | hr, hne⟩
        · exact .inl rfl
        · exact .inr ⟨hr, hne⟩

end Files

/-! ## The store follows its changes -/

/-- The store holds a record. -/
def World.Stores (w : World) (rk : ResidentKey) : Prop := rk ∈ w.rkFiles (rkFile rk.id.rpIdLookup)

/-- The store holds a record for an RP and user with a credential ID. -/
def World.HoldsId (w : World) (key : Bytes 16 × Bytes 16) (id : CredentialId) : Prop :=
  ∃ rk, w.Stores rk ∧ rk.key = key ∧ rk.id = id

/-- A change of the store as a change of what is held for an RP and user. -/
def RkChange.change : RkChange → Change (Bytes 16 × Bytes 16) CredentialId
  | .stored rk => .put rk.key rk.id
  | .deleted rk => .remove rk.key
  | .reset => .clear

/-- What a function did to the store, on top of older changes. -/
def World.changesOn (w : World) (old : List RkChange) : List (Change (Bytes 16 × Bytes 16) CredentialId) :=
  (w.rkChanges.reverse ++ old).map RkChange.change

/-- The store is in order and holds what its changes say, and no record with a count of zero was stored. -/
structure Tracked (P : Platform) (old : List RkChange) (w : World) : Prop where
  store : StoreOk P w
  follows : Follows w.HoldsId (w.changesOn old)
  counts : ∀ rk, .stored rk ∈ w.rkChanges ++ old → rk.id.count ≠ 0

section Tracked

variable {old : List RkChange} {w : World}

/-- What a store holds after one of its files was replaced. -/
theorem stores_update {w w' : World} {n : Fin 16} {l : List ResidentKey}
    (hfiles : w'.rkFiles = Function.update w.rkFiles n l) (rk : ResidentKey) :
    w'.Stores rk ↔ if rkFile rk.id.rpIdLookup = n then rk ∈ l else w.Stores rk := by
  unfold World.Stores
  rw [hfiles]
  by_cases hn : rkFile rk.id.rpIdLookup = n
  · rw [if_pos hn, hn, Function.update_self]
  · rw [if_neg hn, Function.update_of_ne hn]

theorem holdsId_put {w w' : World} {rk : ResidentKey}
    (h : ∀ r, w'.Stores r ↔ r = rk ∨ (w.Stores r ∧ r.key ≠ rk.key)) (key : Bytes 16 × Bytes 16)
    (id : CredentialId) : w'.HoldsId key id ↔ (key = rk.key ∧ id = rk.id) ∨ (key ≠ rk.key ∧ w.HoldsId key id) := by
  constructor
  · rintro ⟨r, hr, rfl, rfl⟩
    rcases (h r).mp hr with rfl | ⟨hr, hne⟩
    · exact .inl ⟨rfl, rfl⟩
    · exact .inr ⟨hne, r, hr, rfl, rfl⟩
  · rintro (⟨rfl, rfl⟩ | ⟨hne, r, hr, rfl, rfl⟩)
    · exact ⟨rk, (h rk).mpr (.inl rfl), rfl, rfl⟩
    · exact ⟨r, (h r).mpr (.inr ⟨hr, hne⟩), rfl, rfl⟩

theorem holdsId_remove {w w' : World} {rk : ResidentKey}
    (h : ∀ r, w'.Stores r ↔ w.Stores r ∧ r.key ≠ rk.key) (key : Bytes 16 × Bytes 16)
    (id : CredentialId) : w'.HoldsId key id ↔ key ≠ rk.key ∧ w.HoldsId key id := by
  constructor
  · rintro ⟨r, hr, rfl, rfl⟩
    obtain ⟨hr, hne⟩ := (h r).mp hr
    exact ⟨hne, r, hr, rfl, rfl⟩
  · rintro ⟨hne, r, hr, rfl, rfl⟩
    exact ⟨r, (h r).mpr ⟨hr, hne⟩, rfl, rfl⟩

theorem changesOn_concat {w w' : World} {c : RkChange} (h : w'.rkChanges = w.rkChanges ++ [c]) :
    w'.changesOn old = c.change :: w.changesOn old := by
  unfold World.changesOn
  rw [h, List.reverse_append]
  rfl

/-- A file in which a record was stored. -/
theorem stores_put {w w' : World} {rk : ResidentKey} {l : List ResidentKey}
    (hfiles : w'.rkFiles = Function.update w.rkFiles (rkFile rk.id.rpIdLookup) l)
    (hl : ∀ r, r ∈ l ↔ r = rk ∨ (r ∈ w.rkFiles (rkFile rk.id.rpIdLookup) ∧ r.key ≠ rk.key)) (r : ResidentKey) :
    w'.Stores r ↔ r = rk ∨ (w.Stores r ∧ r.key ≠ rk.key) := by
  rw [stores_update hfiles]
  by_cases hn : rkFile r.id.rpIdLookup = rkFile rk.id.rpIdLookup
  · rw [if_pos hn, hl]
    unfold World.Stores
    rw [hn]
  · have hne : r.key ≠ rk.key := fun heq => hn (congrArg rkFile (congrArg Prod.fst heq))
    rw [if_neg hn]
    constructor
    · intro hr
      exact .inr ⟨hr, hne⟩
    · rintro (rfl | ⟨hr, -⟩)
      · exact absurd rfl hn
      · exact hr

/-- A file from which a record was removed. -/
theorem stores_remove {w w' : World} {rk : ResidentKey} {l : List ResidentKey}
    (hfiles : w'.rkFiles = Function.update w.rkFiles (rkFile rk.id.rpIdLookup) l)
    (hl : ∀ r, r ∈ l ↔ r ∈ w.rkFiles (rkFile rk.id.rpIdLookup) ∧ r.key ≠ rk.key) (r : ResidentKey) :
    w'.Stores r ↔ w.Stores r ∧ r.key ≠ rk.key := by
  rw [stores_update hfiles]
  by_cases hn : rkFile r.id.rpIdLookup = rkFile rk.id.rpIdLookup
  · rw [if_pos hn, hl]
    unfold World.Stores
    rw [hn]
  · have hne : r.key ≠ rk.key := fun heq => hn (congrArg rkFile (congrArg Prod.fst heq))
    rw [if_neg hn]
    exact ⟨fun hr => ⟨hr, hne⟩, fun hr => hr.1⟩

theorem Follows.of_stored {w' : World} {rk : ResidentKey} (hw : Follows w.HoldsId (w.changesOn old))
    (hstores : ∀ r, w'.Stores r ↔ r = rk ∨ (w.Stores r ∧ r.key ≠ rk.key))
    (hchanges : w'.rkChanges = w.rkChanges ++ [.stored rk]) : Follows w'.HoldsId (w'.changesOn old) := by
  rw [changesOn_concat hchanges]
  exact hw.put (holdsId_put hstores)

theorem rkChanges_flushed (w : World) : (w.flushed P).rkChanges = w.rkChanges :=
  flushed_view (p := .rkChanges) (by decide)

/-- `ctap_overwrite_rk`. -/
theorem Tracked.overwrite (hw : Tracked P old w) (rk : ResidentKey) :
    Ends (ctapOverwriteRk P rk) w (fun _ w' => Follows w'.HoldsId (w'.changesOn old) ∧
      w'.rkChanges = w.rkChanges ++ [.stored rk]) fun _ _ => False := by
  unfold ctapOverwriteRk
  rw [ends_bind, ends_get]
  dsimp only
  cases h : overwriteFirst rk (w.rkFiles (rkFile rk.id.rpIdLookup)) with
  | some l =>
    have hchanges := rkChanges_putRkFile w (rkFile rk.id.rpIdLookup) l (.stored rk)
    refine ends_of_ok (writeRkFile_eq _ l _ w) ⟨Follows.of_stored hw.follows (stores_put rfl fun r => ?_) hchanges,
      hchanges⟩
    exact mem_overwriteFirst (hw.store.unique _) h
  | none =>
    rw [ends_bind]
    refine ends_of_ok (writeRkFile_eq _ _ _ w) (ends_of_ok (authenticatorWriteState_eq _) ?_)
    have hchanges (s : AuthState) (l : List ResidentKey) (n : Fin 16) :
        (World.flushed P { w.putRkFile n l (.stored rk) with state := s }).rkChanges =
          w.rkChanges ++ [.stored rk] :=
      (rkChanges_flushed _).trans (rkChanges_putRkFile ..)
    refine ⟨Follows.of_stored hw.follows (stores_put rfl fun r => ?_) (hchanges ..), hchanges ..⟩
    exact mem_append_of_overwriteFirst h

/-- `ctap_delete_rk`. -/
theorem Tracked.delete (hw : Tracked P old w) (id : CredentialId) :
    Ends (ctapDeleteRk P id) w (fun _ w' => Follows w'.HoldsId (w'.changesOn old) ∧
      (w'.rkChanges = w.rkChanges ∨ ∃ rk, w'.rkChanges = w.rkChanges ++ [.deleted rk])) fun _ _ => False := by
  unfold ctapDeleteRk
  rw [ends_bind, ends_get]
  cases h : deleteFirst id (w.rkFiles (rkFile id.rpIdLookup)) with
  | none => exact ⟨hw.follows, .inl rfl⟩
  | some l =>
    let file := w.rkFiles (rkFile id.rpIdLookup)
    have hmem := (mem_deleteFirst (r := {}) (hw.store.unique _) h).1
    have hfile : rkFile (recordToDelete id file).id.rpIdLookup = rkFile id.rpIdLookup := hw.store.placed _ _ hmem
    dsimp only
    rw [ends_bind]
    refine ends_of_ok (writeRkFile_eq _ _ _ w) ?_
    rw [ends_bind]
    refine ends_of_ok (authenticatorWriteState_eq _) ?_
    have hchanges (s : AuthState) :
        (World.flushed P { w.putRkFile (rkFile id.rpIdLookup) l (.deleted (recordToDelete id file)) with
          state := s }).rkChanges = w.rkChanges ++ [.deleted (recordToDelete id file)] :=
      (rkChanges_flushed _).trans (rkChanges_putRkFile ..)
    refine ⟨?_, .inr ⟨_, hchanges _⟩⟩
    rw [changesOn_concat (hchanges _)]
    refine hw.follows.remove (holdsId_remove (stores_remove (by rw [hfile]; rfl) fun r => ?_))
    rw [hfile]
    exact (mem_deleteFirst (hw.store.unique _) h).2

theorem ignores_tracked :
    Ignores [.inputs, .token, .issued, .verified, .usage, .hmacOutputs, .signatures, .assertionEvents, .counter, .ga,
      .cm, .upDisabled, .pinChecks, .boot, .pinState, .stateFile, .journal, .fixed] (Tracked P old) := by
  intro w w' h hw
  have hfiles : w'.rkFiles = w.rkFiles := h .rkFiles (by decide)
  have hchanges : w'.rkChanges = w.rkChanges := h .rkChanges (by decide)
  have hholds : w'.HoldsId = w.HoldsId := by
    unfold World.HoldsId World.Stores
    rw [hfiles]
  have hlog : w'.changesOn old = w.changesOn old := by
    unfold World.changesOn
    rw [hchanges]
  refine ⟨ignores_storeOk.mono (by decide) w w' h hw.store, ?_, ?_⟩
  · rw [hholds, hlog]
    exact hw.follows
  · rw [hchanges]
    exact hw.counts

/-- A record of the store was stored once. -/
theorem Tracked.count_ne_zero (hw : Tracked P old w) {rk : ResidentKey} {n : Fin 16} (hrk : rk ∈ w.rkFiles n) :
    rk.id.count ≠ 0 := by
  have hstores : w.Stores rk := by
    unfold World.Stores
    rwa [hw.store.placed n rk hrk]
  have hput := exists_put_of_latest ((hw.follows rk.key rk.id).mp ⟨rk, hstores, rfl, rfl⟩)
  obtain ⟨c, hc, heq⟩ := List.mem_map.mp hput
  cases c with
  | stored r =>
    obtain ⟨-, hid⟩ := Change.put.inj heq
    rw [← hid]
    refine hw.counts r ?_
    simpa using hc
  | deleted r => cases heq
  | reset => cases heq

theorem keptByStoring_tracked : KeptByStoring P (Tracked P old) := by
  intro w rk hw hrk
  have hcount : rk.id.count ≠ 0 := by
    cases hrk with
    | new hroom hauth hcount => exact hcount
    | update r hr hid huser hauth =>
      rw [hid]
      exact hw.count_ne_zero hr
  have hboth := (keptByStoring_storeOk w rk hw.store hrk).and (hw.overwrite rk)
  refine hboth.mono (fun _ w' h => ⟨h.1, h.2.1, fun r hr => ?_⟩) fun _ _ h => h.2.elim
  rw [h.2.2, List.append_assoc, List.mem_append, List.singleton_append, List.mem_cons] at hr
  rcases hr with hr | hr | hr
  · exact hw.counts r (List.mem_append_left _ hr)
  · obtain rfl := RkChange.stored.inj hr
    exact hcount
  · exact hw.counts r (List.mem_append_right _ hr)

/-- Changes that store nothing. -/
theorem Tracked.counts_of_concat {w' : World} {c : RkChange} (hw : Tracked P old w)
    (hc : ∀ rk, c ≠ .stored rk) (h : w'.rkChanges = w.rkChanges ++ [c]) :
    ∀ rk, .stored rk ∈ w'.rkChanges ++ old → rk.id.count ≠ 0 := by
  intro rk hrk
  rw [h, List.append_assoc, List.mem_append, List.singleton_append, List.mem_cons] at hrk
  rcases hrk with hrk | hrk | hrk
  · exact hw.counts rk (List.mem_append_left _ hrk)
  · exact absurd hrk.symm (hc rk)
  · exact hw.counts rk (List.mem_append_right _ hrk)

theorem tracked_ctapDeleteRk (id : CredentialId) : Preserves (Tracked P old) (ctapDeleteRk P id) := by
  refine preserves_of_ends fun w hw => (hw.store.delete.and (hw.delete id)).mono (fun _ w' h => ?_)
    fun _ _ h => h.2.elim
  refine ⟨h.1, h.2.1, ?_⟩
  rcases h.2.2 with hsame | ⟨rk, hdel⟩
  · rw [hsame]
    exact hw.counts
  · exact hw.counts_of_concat (fun _ => by simp) hdel

theorem rkChanges_stateInit (w : World) : w.stateInit.rkChanges = w.rkChanges ++ [.reset] := by
  have hnone : ((List.finRange 16).map fun n => Event.rkWritten n []).filterMap Event.rkChange? = [] := by
    rw [List.filterMap_eq_nil_iff]
    intro e he
    obtain ⟨n, -, rfl⟩ := List.mem_map.mp he
    rfl
  unfold World.rkChanges World.stateInit
  rw [List.filterMap_append, List.filterMap_append, hnone, List.append_nil]
  rfl

/-- An empty store behind a reset. -/
theorem follows_reset {l : List RkChange} (hfiles : w.rkFiles = fun _ => [])
    (hchanges : w.rkChanges = l ++ [.reset]) : Follows w.HoldsId (w.changesOn old) := by
  have hnone (key : Bytes 16 × Bytes 16) (id : CredentialId) : ¬ w.HoldsId key id := by
    rintro ⟨rk, hrk, -⟩
    unfold World.Stores at hrk
    rw [hfiles] at hrk
    cases hrk
  unfold World.changesOn
  rw [hchanges, List.reverse_append]
  exact follows_clear hnone

theorem tracked_ctapReset : Preserves (Tracked P old) (ctapReset P) := by
  have hrest : Preserves (fun w => Follows w.HoldsId (w.changesOn old) ∧
      ∀ rk, .stored rk ∈ w.rkChanges ++ old → rk.id.count ≠ 0) (ctapReset P) := by
    refine preserves_ctapReset (fun w w' h hw => ?_) fun w hw => ?_
    · have hfiles : w'.rkFiles = w.rkFiles := h .rkFiles (by decide)
      have hchanges : w'.rkChanges = w.rkChanges := h .rkChanges (by decide)
      unfold World.HoldsId World.Stores World.changesOn at hw ⊢
      rwa [hfiles, hchanges]
    · have hchanges : (w.stateInit.flushed P).rkChanges = w.rkChanges ++ [.reset] :=
        (rkChanges_flushed _).trans (rkChanges_stateInit w)
      refine ⟨follows_reset rfl hchanges, fun rk hrk => hw.2 rk ?_⟩
      rw [hchanges, List.append_assoc] at hrk
      simpa using hrk
  intro w hw
  obtain ⟨hfollows, hcounts⟩ := hrest w ⟨hw.follows, hw.counts⟩
  exact ⟨storeOk_ctapReset w hw.store, hfollows, hcounts⟩

theorem tracked_dispatch (c : Command) (request : List UInt8) :
    Preserves (Tracked P old) (dispatch P c request) :=
  preserves_dispatch (ignores_tracked.mono (by decide))
    (preserves_ctapMakeCredential (ignores_tracked.mono (by decide)) fun _ _ _ _ _ _ hn =>
      keptByStoring_tracked.makeAttestedData (ignores_tracked.mono (by decide)) hn)
    (ignores_tracked.preserves touches_ctapClientPin (by decide))
    (preserves_ctapCredentialManagement (ignores_tracked.mono (by decide))
      (fun _ => preserves_deleteCredential tracked_ctapDeleteRk) fun _ =>
      keptByStoring_tracked.updateUserInformation (ignores_tracked.mono (by decide)))
    c fun _ => tracked_ctapReset

end Tracked

/-! ## Runs -/

/-- The changes of the store in a history, the newest first. -/
def rkLog : List Entry → List RkChange
  | [] => []
  | e :: h => e.world.rkChanges.reverse ++ rkLog h

/-- The credential ID in the last record written for an RP and user since the last reset, if that record
was not deleted since. -/
def currentId (h : List Entry) (key : Bytes 16 × Bytes 16) : Option CredentialId :=
  latest ((rkLog h).map RkChange.change) key

/-- A start changes the store where it makes a new state, and only there. -/
theorem started_rkChanges {w w₁ w' : World} (hload : loadState P w = .ok () w₁)
    (hinit : ctapInit P w = .ok true w') : w'.rkChanges = w₁.rkChanges := by
  rw [ctapInit_eq hload] at hinit
  split at hinit
  · simp at hinit
  obtain ⟨_, w₂, hpin, hret⟩ := bind_eq_ok.mp hinit
  obtain ⟨-, rfl⟩ := pure_eq_ok.mp hret
  have hpin' : w'.rkChanges = (w₁.loaded P).rkChanges :=
    (touches_clientPinInitialize .rkChanges (by decide)).ok hpin
  exact hpin'.trans (loaded_view (p := .rkChanges) (by decide))

theorem Boots.rkChanges_of_new {w w' : World} (h : Boots P w w') (hw : w.IsNew) : w'.rkChanges = [.reset] := by
  obtain ⟨inputs, version, hinit⟩ := h
  have hload := loadState_refused (P := P) (w := (w.powerOn version).withInputs inputs) (by
    show readEnvelope P {} w.stateFile = .ok none
    rw [hw.1]
    rfl)
  rw [started_rkChanges hload hinit]
  exact (rkChanges_flushed _).trans (rkChanges_stateInit _)

theorem Boots.rkChanges_of_stored {w w' : World} (h : Boots P w w') (hw : Synced P w) : w'.rkChanges = [] := by
  obtain ⟨inputs, version, hinit⟩ := h
  have hread : readEnvelope P {} w.stateFile = .ok (some w.state) := by
    rw [hw.file, readEnvelope_stateFileOf P _ hw.version]
  have hload := loadState_stored (P := P) (w := (w.powerOn version).withInputs inputs) hread
  rw [started_rkChanges hload hinit]
  rfl

/-- The store holds what the history says. -/
theorem Run.tracked {h : List Entry} {w : World} (hr : Run P h w) :
    Follows w.HoldsId ((rkLog h).map RkChange.change) ∧ ∀ rk, .stored rk ∈ rkLog h → rk.id.count ≠ 0 := by
  induction hr with
  | start hw hb =>
    obtain ⟨-, -, -, hfiles, -⟩ := hb.of_new hw
    have hlog := hb.rkChanges_of_new hw
    have hfollows := @follows_reset [] _ [] hfiles hlog
    refine ⟨hfollows, fun rk hrk => ?_⟩
    unfold rkLog Entry.world at hrk
    rw [hlog] at hrk
    simp [rkLog] at hrk
  | @request h w hr r hv hb ih =>
    subst hb
    obtain ⟨w₁, hafter, hd⟩ := hv.run
    have hstart : Tracked P (rkLog h) (r.before.withInputs r.after.inputs) := by
      refine ⟨?_, ih.1, ih.2⟩
      exact ignores_storeOk.mono (S := requestParts) (by decide) _ _ (fun p hp => withInputs_view hp) hr.storeOk
    have hfinal : Tracked P (rkLog h) w₁ := by
      have hkeep := tracked_dispatch (commandOf r.cmd) r.request _ hstart
      rcases hd with ⟨-, hd⟩ | ⟨e, -, hd⟩
      · rwa [final_of_ok hd] at hkeep
      · rwa [final_of_error hd] at hkeep
    have hchanges : r.after.rkChanges = w₁.rkChanges := by
      rw [hafter]
      rfl
    constructor
    · have hfollows := hfinal.follows
      show Follows r.after.HoldsId (r.after.changesOn (rkLog h))
      rw [hafter]
      exact hfollows
    · intro rk hrk
      refine hfinal.counts rk ?_
      unfold rkLog Entry.world at hrk
      rw [hchanges] at hrk
      simpa using hrk
  | @boot h w w' hr hb ih =>
    obtain ⟨-, -, hfiles, -⟩ := hb.of_stored hr.synced.file hr.synced.version
    have hlog : rkLog (.boot w' :: h) = rkLog h := by
      show w'.rkChanges.reverse ++ rkLog h = rkLog h
      rw [hb.rkChanges_of_stored hr.synced]
      rfl
    rw [hlog]
    unfold World.HoldsId World.Stores at ih ⊢
    rwa [hfiles]

/-! ## Existence -/

/-- `ctap_verify_rk_exists` finds what the store holds: the MAC of a record never refuses it. -/
theorem verifyRkExists_iff_holds {w : World} (hw : StoreOk P w) (id : CredentialId) :
    ctapVerifyRkExists P.prims w.keys w.rkFiles id = true ↔ ∃ user, w.HoldsId (id.rpIdLookup, user) id := by
  unfold ctapVerifyRkExists
  rw [List.any_eq_true]
  constructor
  · rintro ⟨rk, hrk, hmatch⟩
    obtain ⟨-, rfl, -⟩ := of_decide_eq_true hmatch
    exact ⟨rk.userIdLookup, rk, hrk, rfl, rfl⟩
  · rintro ⟨user, rk, hrk, -, rfl⟩
    exact ⟨rk, hrk, decide_eq_true ⟨rfl, rfl, (hw.authentic _ rk hrk).1⟩⟩

/-- A discoverable credential that is signed with, other than an invalidated entry, exists. -/
theorem AssertionRun.exists_of_discoverable {request : List UInt8} {w w' : World}
    (A : AssertionRun P request w w') (hw : StoreOk P w) {c : CredentialDescriptor} (hc : c ∈ A.creds)
    (hrk : isRkOf P.prims w.keys c.id = true) (hcount : c.id.count ≠ 0) :
    ctapVerifyRkExists P.prims w.keys w.rkFiles c.id = true := by
  rcases A.filtered.mem hc with hzero | hq | ⟨rk, hmem, -, rfl⟩
  · exact absurd hzero hcount
  · unfold allowListQualifies at hq
    rw [A.filter_keys, A.filter_rkFiles, hrk] at hq
    simp only [Bool.not_true, Bool.false_or, Bool.and_eq_true] at hq
    exact hq.2
  · rw [verifyRkExists_iff_holds hw]
    refine ⟨rk.userIdLookup, rk, ?_, rfl, rfl⟩
    rw [A.filter_rkFiles] at hmem
    unfold World.Stores
    rwa [hw.placed _ rk hmem]

/-- In every run of the device `ctap_verify_rk_exists` finds exactly the credential IDs that were written
last for an RP and user since the last reset, and not deleted since.  So a discoverable credential that was
deleted or replaced is not signed with, whatever the allow list of a request. -/
theorem verifyRkExists_iff_current {h : List Entry} {w : World} (hr : Run P h w) :
    (∀ id, ctapVerifyRkExists P.prims w.keys w.rkFiles id = true ↔
      ∃ user, currentId h (id.rpIdLookup, user) = some id) ∧
    (∀ rk, .stored rk ∈ rkLog h → (∀ r, .stored r ∈ rkLog h → r.id = rk.id → r.key = rk.key) →
      (ctapVerifyRkExists P.prims w.keys w.rkFiles rk.id = true ↔ currentId h rk.key = some rk.id)) ∧
    ∀ h₁ r h₂, h = h₁ ++ .request r :: h₂ → commandOf r.cmd = .getAssertion → r.status = .ok →
      ∀ rk, .stored rk ∈ rkLog h₂ → isRkOf P.prims r.before.keys rk.id = true →
        (∀ user, currentId h₂ (rk.id.rpIdLookup, user) ≠ some rk.id) →
        ∀ cred, r.SignsWith cred → cred.id ≠ rk.id := by
  have hexists {h : List Entry} {w : World} (hr : Run P h w) (id : CredentialId) :
      ctapVerifyRkExists P.prims w.keys w.rkFiles id = true ↔
        ∃ user, currentId h (id.rpIdLookup, user) = some id := by
    rw [verifyRkExists_iff_holds hr.storeOk]
    exact exists_congr fun user => hr.tracked.1 (id.rpIdLookup, user) id
  refine ⟨hexists hr, fun rk hrk hkey => ?_, ?_⟩
  · rw [hexists hr]
    constructor
    · rintro ⟨user, hcur⟩
      -- what is held under another user would have been stored there
      obtain ⟨c, hc, hput⟩ := List.mem_map.mp (exists_put_of_latest hcur)
      cases c with
      | stored r =>
        obtain ⟨hrkey, hid⟩ := Change.put.inj hput
        rwa [← hkey r hc hid, hrkey]
      | deleted r => cases hput
      | reset => cases hput
    · exact fun hcur => ⟨rk.userIdLookup, hcur⟩
  · rintro h₁ r h₂ rfl hc hok rk hrk hisRk hgone cred hs hid
    obtain ⟨hr₂, hv, -⟩ := hr.suffix.of_request
    obtain ⟨w₁, A, c, hmem, hshows⟩ := hv.signsWith hc hok hs
    have hcid : c.id = rk.id := hshows.id_eq.symm.trans hid
    have hstore : StoreOk P (r.before.withInputs r.after.inputs) :=
      ignores_storeOk.mono (S := requestParts) (by decide) _ _ (fun p hp => withInputs_view hp) hr₂.storeOk
    have hfound := A.exists_of_discoverable hstore hmem (by rw [hcid]; exact hisRk)
      (by rw [hcid]; exact hr₂.tracked.2 rk hrk)
    rw [hcid] at hfound
    obtain ⟨user, hcur⟩ := (hexists hr₂ rk.id).mp hfound
    exact hgone user hcur

/-- The request names the given credentials. -/
def allowListRequest (rpId : String) (ids : List CredentialId) : List UInt8 :=
  encMap (getAssertionMembersOf rpId (List.replicate 32 9) ++
    [([3], Encoder.numberBytes ids.length 4 ++ (ids.map encCredential).flatten)])

/-- A user registers twice, and an assertion names both credentials, the replaced one first. -/
def registerTwice : Option (World × List Served) :=
  (serveAll simPlatform simStart [touched 1 (encMap (makeCredentialMembers "a" 1))]).bind fun x =>
  (serveAll simPlatform x.1 [touched 1 (encMap (makeCredentialMembers "a" 1))]).bind fun y =>
  (serveAll simPlatform y.1 [touched 2 (allowListRequest "a" ((x.1.records ++ y.1.records).map (·.id)))]).map
    fun z => (z.1, z.2 ++ (y.2 ++ x.2))

theorem registerTwice_run {w : World} {rs : List Served} (h : registerTwice = some (w, rs)) :
    Run simPlatform (rs.map .request ++ [.boot simStart]) w := by
  obtain ⟨⟨w₁, rs₁⟩, h₁, h⟩ := Option.bind_eq_some_iff.mp h
  obtain ⟨⟨w₂, rs₂⟩, h₂, h⟩ := Option.bind_eq_some_iff.mp h
  obtain ⟨⟨w₃, rs₃⟩, h₃, heq⟩ := Option.map_eq_some_iff.mp h
  obtain ⟨rfl, rfl⟩ := Prod.mk.inj heq
  have hrun := serveAll_run (serveAll_run (serveAll_run run_simStart h₁) h₂) h₃
  simpa using hrun

/-- Whether a change stored a discoverable credential that is not in the store. -/
def RkChange.isGone (w : World) : RkChange → Bool
  | .stored rk =>
    isRkOf simPlatform.prims w.keys rk.id && !ctapVerifyRkExists simPlatform.prims w.keys w.rkFiles rk.id
  | _ => false

theorem RkChange.exists_of_isGone {w : World} {c : RkChange} (h : c.isGone w = true) :
    ∃ rk, c = .stored rk ∧ isRkOf simPlatform.prims w.keys rk.id = true ∧
      ctapVerifyRkExists simPlatform.prims w.keys w.rkFiles rk.id = false := by
  cases c with
  | stored rk =>
    unfold isGone at h
    rw [Bool.and_eq_true, Bool.not_eq_true'] at h
    exact ⟨rk, rfl, h.1, h.2⟩
  | deleted rk => cases h
  | reset => cases h

/-- The credential that was registered first is not signed with. -/
theorem verifyRkExists_iff_current_registered_twice :
    ∃ r h w rk cred, Run simPlatform (.request r :: h) w ∧ commandOf r.cmd = .getAssertion ∧ r.status = .ok ∧
      .stored rk ∈ rkLog h ∧ r.SignsWith cred ∧ cred.id ≠ rk.id := by
  have heval : registerTwice.map (fun x => x.2.map fun r =>
      (r.cmd, r.status, r.after.rkChanges.any (RkChange.isGone (x.2.head?.elim x.1 (·.before)))))
      = some [(2, .ok, false), (1, .ok, false), (1, .ok, true)] := by
    decide +kernel
  obtain ⟨⟨w, rs⟩, hrs, hmap⟩ := Option.map_eq_some_iff.mp heval
  obtain ⟨g, rs₂, rfl, hg, hmap⟩ := List.map_eq_cons_iff.mp hmap
  obtain ⟨m₂, rs₁, rfl, -, hmap⟩ := List.map_eq_cons_iff.mp hmap
  obtain ⟨m₁, rs, rfl, hm, -⟩ := List.map_eq_cons_iff.mp hmap
  simp only [Prod.mk.injEq] at hg hm
  have hrun := registerTwice_run hrs
  have hc := commandOf_eq_getAssertion.mpr hg.1
  obtain ⟨c, hchange, hgone⟩ := List.any_eq_true.mp hm.2.2
  obtain ⟨rk, rfl, hisRk, hnone⟩ := RkChange.exists_of_isGone hgone
  obtain ⟨hr₂, hv, -⟩ := hrun.of_request
  obtain ⟨GA, creds, cred, authData, -, hass⟩ := hv.asserted hc hg.2.1
  have hsigns : g.SignsWith cred := ⟨authData, GA.clientDataHash, hass.signed_mem⟩
  have hstored : .stored rk ∈ rkLog ([m₂, m₁].map .request ++ (rs.map .request ++ [.boot simStart])) := by
    simp [rkLog, Entry.world, hchange]
  have hnot (user : Bytes 16) : currentId ([m₂, m₁].map .request ++ (rs.map .request ++ [.boot simStart]))
      (rk.id.rpIdLookup, user) ≠ some rk.id := by
    intro hcur
    have hfound := ((verifyRkExists_iff_current hr₂).1 rk.id).mpr ⟨user, hcur⟩
    exact Bool.false_ne_true (hnone.symm.trans hfound)
  exact ⟨g, _, w, rk, cred, hrun, hc, hg.2.1, hstored, hsigns,
    (verifyRkExists_iff_current hrun).2.2 [] g _ rfl hc hg.2.1 rk hstored hisRk hnot cred hsigns⟩

end TkeyFido2
