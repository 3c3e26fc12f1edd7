import Mathlib.Algebra.BigOperators.Fin
import TkeyFido2.Ctap.Persistence

/-!
# The store of resident keys

Sixteen files of records.  A record lies in the file that its lookup MAC names, no RP and user have
two, the counter in `STATE` is their number, and their MACs verify under the keys in memory.
-/

namespace TkeyFido2

open Cbor Prog

/-! ## Files -/

namespace ResidentKey

/-- RP and user of a record, as the store compares them. -/
def key (rk : ResidentKey) : Bytes 16 × Bytes 16 := (rk.id.rpIdLookup, rk.userIdLookup)

end ResidentKey

section Files

variable {rk : ResidentKey} {id : CredentialId} {l l' : List ResidentKey}

theorem overwriteFirst_some (h : overwriteFirst rk l = some l') :
    l'.map ResidentKey.key = l.map ResidentKey.key ∧ ∀ r ∈ l', r = rk ∨ r ∈ l := by
  induction l generalizing l' with
  | nil => simp [overwriteFirst] at h
  | cons r l ih =>
    unfold overwriteFirst at h
    split at h
    · rename_i hkey
      obtain rfl := Option.some.inj h
      refine ⟨?_, ?_⟩
      · simp [ResidentKey.key, hkey.1, hkey.2]
      · intro r' hr'
        rcases List.mem_cons.mp hr' with rfl | hr'
        · exact .inl rfl
        · exact .inr (List.mem_cons_of_mem _ hr')
    · obtain ⟨l₁, hl₁, rfl⟩ := Option.map_eq_some_iff.mp h
      obtain ⟨hmap, hmem⟩ := ih hl₁
      refine ⟨by simp [hmap], ?_⟩
      intro r' hr'
      rcases List.mem_cons.mp hr' with rfl | hr'
      · exact .inr (List.mem_cons_self ..)
      · exact (hmem r' hr').imp_right (List.mem_cons_of_mem _)

theorem overwriteFirst_none (h : overwriteFirst rk l = none) : rk.key ∉ l.map ResidentKey.key := by
  induction l with
  | nil => simp
  | cons r l ih =>
    unfold overwriteFirst at h
    split at h
    · cases h
    · rename_i hkey
      have hl : overwriteFirst rk l = none := by simpa using h
      rw [List.map_cons, List.mem_cons, not_or]
      refine ⟨?_, ih hl⟩
      intro heq
      obtain ⟨h₁, h₂⟩ := Prod.mk.inj heq
      exact hkey ⟨h₁.symm, h₂.symm⟩

theorem deleteFirst_some (h : deleteFirst id l = some l') :
    l'.Sublist l ∧ l'.length + 1 = l.length := by
  induction l generalizing l' with
  | nil => simp [deleteFirst] at h
  | cons r l ih =>
    unfold deleteFirst at h
    split at h
    · obtain rfl := Option.some.inj h
      exact ⟨List.sublist_cons_self r l, rfl⟩
    · obtain ⟨l₁, hl₁, rfl⟩ := Option.map_eq_some_iff.mp h
      obtain ⟨hsub, hlen⟩ := ih hl₁
      exact ⟨hsub.cons_cons r, by simp only [List.length_cons, hlen]⟩

end Files

/-! ## The invariant -/

/-- Both MACs of a record. -/
structure ResidentKey.Authentic (C : Primitives) (k : SessionKeys) (rk : ResidentKey) : Prop where
  rkTag : ctapVerifyMac C k rk.rkTag rk.macInput = true
  tag : rk.id.tag = ctapMakeAuthTag C k rk.id.version rk.id.rpIdLookup rk.id.nonce
    rk.id.protectedMetadata rk.id.count

/-- The number of records over all files. -/
def World.stored (w : World) : Nat := ∑ n, (w.rkFiles n).length

structure StoreOk (P : Platform) (w : World) : Prop where
  keys : w.keys = P.deriveSessionKeys w.state.keySalt
  placed : ∀ n, ∀ rk ∈ w.rkFiles n, rkFile rk.id.rpIdLookup = n
  unique : ∀ n, ((w.rkFiles n).map ResidentKey.key).Nodup
  counted : w.state.rkStored.toNat = w.stored
  bounded : w.stored ≤ 200
  authentic : ∀ n, ∀ rk ∈ w.rkFiles n, rk.Authentic P.prims w.keys

section Store

variable {P : Platform}

/-- The number of records after a file was replaced. -/
theorem stored_update (w : World) (n : Fin 16) (l : List ResidentKey) :
    ({ w with rkFiles := Function.update w.rkFiles n l } : World).stored + (w.rkFiles n).length
      = w.stored + l.length := by
  have hnew : ({ w with rkFiles := Function.update w.rkFiles n l } : World).stored
      = l.length + ∑ m ∈ Finset.univ \ {n}, (w.rkFiles m).length := by
    rw [← Finset.sum_update_of_mem (Finset.mem_univ n)]
    refine Finset.sum_congr rfl fun m _ => ?_
    exact Function.apply_update (fun _ => List.length) w.rkFiles n l m
  have hold : w.stored
      = (w.rkFiles n).length + ∑ m ∈ Finset.univ \ {n}, (w.rkFiles m).length :=
    Finset.sum_eq_add_sum_sdiff_singleton_of_mem (Finset.mem_univ n) _
  omega

theorem ignores_storeOk :
    Ignores [.inputs, .token, .issued, .verified, .usage, .hmacOutputs, .signatures, .rkChanges, .assertionEvents, .counter, .ga, .cm, .upDisabled,
      .pinChecks, .boot, .pinState, .stateFile, .journal, .fixed] (StoreOk P) := by
  intro w w' h hw
  have hfiles : w'.rkFiles = w.rkFiles := h .rkFiles (by decide)
  have hkeys : w'.keys = w.keys := h .keys (by decide)
  have hsalt : w'.state.keySalt = w.state.keySalt :=
    congrArg (fun x => x.2.2) (show w'.identity = w.identity from h .identity (by decide))
  have hstored : w'.state.rkStored = w.state.rkStored := h .rkStored (by decide)
  have hcount : w'.stored = w.stored := by unfold World.stored; rw [hfiles]
  refine ⟨by rw [hkeys, hsalt, hw.keys], ?_, ?_, by rw [hstored, hcount, hw.counted],
    by rw [hcount]; exact hw.bounded, ?_⟩
  · rw [hfiles]; exact hw.placed
  · rw [hfiles]; exact hw.unique
  · rw [hfiles, hkeys]; exact hw.authentic

/-! ## Writing records -/

/-- The world after one of the files was replaced. -/
def World.putRkFile (w : World) (n : Fin 16) (l : List ResidentKey) (c : RkChange) : World := { w with
  rkFiles := Function.update w.rkFiles n l
  trace := (w.trace ++ [.rkWritten n l]) ++ [.rkChanged c] }

theorem writeRkFile_eq (n : Fin 16) (l : List ResidentKey) (c : RkChange) (w : World) :
    writeRkFile n l c w = .ok () (w.putRkFile n l c) := rfl

theorem rkChanges_putRkFile (w : World) (n : Fin 16) (l : List ResidentKey) (c : RkChange) :
    (w.putRkFile n l c).rkChanges = w.rkChanges ++ [c] := by
  unfold World.rkChanges World.putRkFile
  rw [List.filterMap_append, List.filterMap_append]
  exact congrArg (· ++ [c]) (List.append_nil _)

/-- A file of the store in which a record was replaced or added. -/
theorem StoreOk.replaceFile {w w' : World} (hw : StoreOk P w) {n : Fin 16} {l : List ResidentKey}
    (hfiles : w'.rkFiles = Function.update w.rkFiles n l) (hkeys : w'.keys = w.keys)
    (hsalt : w'.state.keySalt = w.state.keySalt) (hplaced : ∀ rk ∈ l, rkFile rk.id.rpIdLookup = n)
    (hunique : (l.map ResidentKey.key).Nodup) (hauth : ∀ rk ∈ l, rk.Authentic P.prims w.keys)
    (hcount : w'.state.rkStored.toNat + (w.rkFiles n).length = w.state.rkStored.toNat + l.length)
    (hbound : w'.state.rkStored.toNat ≤ 200) : StoreOk P w' := by
  have hstored : w'.stored + (w.rkFiles n).length = w.stored + l.length := by
    have := stored_update w n l
    rwa [show ({ w with rkFiles := Function.update w.rkFiles n l } : World).stored = w'.stored by
      unfold World.stored; rw [hfiles]] at this
  have hc := hw.counted
  have hcounted : w'.state.rkStored.toNat = w'.stored := by omega
  refine ⟨by rw [hkeys, hsalt, hw.keys], ?_, ?_, hcounted, by omega, ?_⟩
  all_goals
    intro m
    rw [hfiles]
    by_cases hm : m = n
  · subst hm
    rw [Function.update_self]
    exact hplaced
  · rw [Function.update_of_ne hm]
    exact hw.placed m
  · subst hm
    rw [Function.update_self]
    exact hunique
  · rw [Function.update_of_ne hm]
    exact hw.unique m
  · subst hm
    rw [Function.update_self, hkeys]
    exact hauth
  · rw [Function.update_of_ne hm, hkeys]
    exact hw.authentic m

theorem toNat_succ {x : UInt16} (h : x.toNat < 200) : (x + 1).toNat = x.toNat + 1 := by
  rw [UInt16.toNat_add, show (1 : UInt16).toNat = 1 from rfl]
  omega

theorem toNat_pred {x : UInt16} (h : 0 < x.toNat) : (x - 1).toNat = x.toNat - 1 := by
  have hx := x.toNat_lt
  rw [UInt16.toNat_sub, show (1 : UInt16).toNat = 1 from rfl]
  omega

/-- `ctap_overwrite_rk` of a valid record, where there is room for it or its place is taken. -/
theorem StoreOk.overwrite {w : World} (hw : StoreOk P w) (rk : ResidentKey)
    (hrk : rk.Authentic P.prims w.keys)
    (hroom : w.state.rkStored.toNat < 200 ∨
      rk.key ∈ (w.rkFiles (rkFile rk.id.rpIdLookup)).map ResidentKey.key) :
    Ends (ctapOverwriteRk P rk) w (fun _ => StoreOk P) fun _ _ => False := by
  unfold ctapOverwriteRk
  rw [ends_bind, ends_get]
  dsimp only
  have hc := hw.counted
  have hb := hw.bounded
  cases h : overwriteFirst rk (w.rkFiles (rkFile rk.id.rpIdLookup)) with
  | some l =>
    obtain ⟨hmap, hmem⟩ := overwriteFirst_some h
    have hlen : l.length = (w.rkFiles (rkFile rk.id.rpIdLookup)).length := by
      simpa using congrArg List.length hmap
    show StoreOk P _
    refine hw.replaceFile rfl rfl rfl ?_ ?_ ?_ ?_ ?_
    · intro r hr
      rcases hmem r hr with rfl | hr
      · rfl
      · exact hw.placed _ r hr
    · rw [hmap]
      exact hw.unique _
    · intro r hr
      rcases hmem r hr with rfl | hr
      · exact hrk
      · exact hw.authentic _ r hr
    · rw [hlen]
    · show w.state.rkStored.toNat ≤ 200
      omega
  | none =>
    have hnew := overwriteFirst_none h
    have hlt : w.state.rkStored.toNat < 200 := hroom.resolve_right hnew
    have hsucc := toNat_succ hlt
    refine ends_of_ok (authenticatorWriteState_eq _) ?_
    refine hw.replaceFile rfl rfl rfl ?_ ?_ ?_ ?_ ?_
    · intro r hr
      rcases List.mem_append.mp hr with hr | hr
      · exact hw.placed _ r hr
      · rw [List.mem_singleton.mp hr]
    · rw [List.map_append, List.nodup_append]
      refine ⟨hw.unique _, by simp, ?_⟩
      intro a ha b hb heq
      rw [List.map_singleton, List.mem_singleton] at hb
      exact hnew (hb ▸ heq ▸ ha)
    · intro r hr
      rcases List.mem_append.mp hr with hr | hr
      · exact hw.authentic _ r hr
      · rw [List.mem_singleton.mp hr]
        exact hrk
    · rw [List.length_append]
      show (w.state.rkStored + 1).toNat + _ = _
      rw [hsucc, List.length_singleton]
      omega
    · show (w.state.rkStored + 1).toNat ≤ 200
      omega

/-- `ctap_delete_rk`. -/
theorem StoreOk.delete {w : World} {id : CredentialId} (hw : StoreOk P w) :
    Ends (ctapDeleteRk P id) w (fun _ => StoreOk P) fun _ _ => False := by
  unfold ctapDeleteRk
  rw [ends_bind, ends_get]
  have hc := hw.counted
  have hb := hw.bounded
  cases h : deleteFirst id (w.rkFiles (rkFile id.rpIdLookup)) with
  | none => exact hw
  | some l =>
    obtain ⟨hsub, hlen⟩ := deleteFirst_some h
    have hle := stored_update w (rkFile id.rpIdLookup) []
    rw [List.length_nil] at hle
    have hpred := toNat_pred (x := w.state.rkStored) (by omega)
    show Ends (do ctapDecrementRkStore P; pure true) (w.putRkFile (rkFile id.rpIdLookup) l _) _ _
    rw [ends_bind]
    refine ends_of_ok (authenticatorWriteState_eq _) ?_
    show StoreOk P _
    refine hw.replaceFile rfl rfl rfl ?_ ?_ ?_ ?_ ?_
    · intro r hr
      exact hw.placed _ r (hsub.subset hr)
    · exact (hw.unique _).sublist (hsub.map ResidentKey.key)
    · intro r hr
      exact hw.authentic _ r (hsub.subset hr)
    · show (w.state.rkStored - 1).toNat + _ = _
      omega
    · show (w.state.rkStored - 1).toNat ≤ 200
      omega

/-! ## Commands -/

theorem preserves_of_ends {I : World → Prop} {α : Type} {m : CtapM α}
    (h : ∀ w, I w → Ends m w (fun _ => I) fun _ => I) : Preserves I m :=
  preserves_iff_ends.mpr h

/-- A new record verifies. -/
theorem authentic_makeResidentKey {k : SessionKeys} {l n : Bytes 16} {m : Bytes 4} {c : UInt32}
    {user : UserEntity} {h : Bytes 32} {rp : List UInt8} {nonce : Bytes 16} :
    (makeResidentKey P k (CredentialId.make 0 l n m c (ctapMakeAuthTag P.prims k 0 l n m c)) user h rp
      nonce).Authentic P.prims k := by
  refine ⟨?_, ?_⟩
  · simp [makeResidentKey, ctapVerifyMac, ResidentKey.macInput]
  · simp [makeResidentKey, ResidentKey.xcrypt]

/-- A record that the commands store: a new one where there is room, or one in the place of another. -/
inductive ResidentKey.Storable (P : Platform) (w : World) (rk : ResidentKey) : Prop
  | new (hroom : w.state.rkStored.toNat < 200) (hauth : rk.Authentic P.prims w.keys) (hcount : rk.id.count ≠ 0)
  | update (r : ResidentKey) (hr : r ∈ w.rkFiles (rkFile rk.id.rpIdLookup)) (hid : rk.id = r.id)
      (huser : rk.userIdLookup = r.userIdLookup)
      (hauth : r.Authentic P.prims w.keys → rk.Authentic P.prims w.keys)

/-- `ctap_overwrite_rk` keeps the invariant where the commands call it. -/
def KeptByStoring (P : Platform) (I : World → Prop) : Prop :=
  ∀ w rk, I w → rk.Storable P w → Ends (ctapOverwriteRk P rk) w (fun _ => I) fun _ => I

/-- The resident key part of a new credential. -/
theorem KeptByStoring.storeResidentKey {I : World → Prop} (hover : KeptByStoring P I)
    (hI : Ignores [.inputs] I) {w : World} (hw : I w) {rp : RpId} {h : Bytes 32} {l n : Bytes 16}
    {m : Bytes 4} {c : UInt32} (hc : c ≠ 0) {user : UserEntity} :
    Ends (storeResidentKey P rp h
      (CredentialId.make 0 l n m c (ctapMakeAuthTag P.prims w.keys 0 l n m c)) user) w
      (fun _ => I) fun _ => I := by
  unfold TkeyFido2.storeResidentKey
  rw [ends_bind, ends_get, ends_bind, ends_failIf]
  refine ⟨fun _ => hw, fun hfull => ?_⟩
  have hlt : w.state.rkStored.toNat < 200 := UInt16.not_le.mp hfull
  let w₁ : World := { w with rngPos := w.rngPos + 16 }
  have hw₁ : I w₁ := hI w w₁ (fun p hp => by cases p <;> first | rfl | simp at hp) hw
  show Ends (ctapOverwriteRk P _) w₁ _ _
  refine hover w₁ _ hw₁ (.new hlt authentic_makeResidentKey ?_)
  simpa [makeResidentKey, ResidentKey.xcrypt] using hc

theorem KeptByStoring.makeAttestedData {I : World → Prop} (hover : KeptByStoring P I)
    (hI : Ignores [.inputs] I) {rp : RpId} {h : Bytes 32} {l : Bytes 16} {n : UInt32} (hn : n ≠ 0)
    {c : CredInfo} {e : Extensions} : Preserves I (makeAttestedData P rp h l n c e) := by
  refine preserves_of_ends fun w hw => ?_
  let w₁ : World := { w with rngPos := w.rngPos + 16 }
  have hw₁ : I w₁ := hI w w₁ (fun p hp => by cases p <;> first | rfl | simp at hp) hw
  have hcose {e : Encoder} {d : List UInt8} {t : CredType} {a : Option CoseAlg} :
      Preserves I (coseKeyGenerate P e d t a) := hI.preserves touches_coseKeyGenerate (by decide)
  unfold TkeyFido2.makeAttestedData
  rw [ends_bind, ends_get, ends_bind]
  refine ends_of_ok (show ctapGenerateRng 16 w = .ok _ w₁ from rfl) ?_
  rw [ends_bind, ends_onlyIf]
  refine ⟨fun _ => (hover.storeResidentKey hI hw₁ hn).mono (fun _ w₂ hw₂ => ?_) fun _ _ h => h, fun _ => ?_⟩
  · exact (hcose.bind fun _ => preserves_pure).ends hw₂
  · exact (hcose.bind fun _ => preserves_pure).ends hw₁

theorem storeOk_deleteCredential {params : SubCommandParams} :
    Preserves (StoreOk P) (deleteCredential P params) :=
  preserves_deleteCredential fun _ => preserves_of_ends fun _ hw =>
    hw.delete.mono (fun _ _ h => h) fun _ _ h => h.elim

/-- What `scan_rk` returns is a decrypted record of the RP's file. -/
theorem scanNext_found {w w' : World} {l : Bytes 16} {rk : ResidentKey}
    (h : scanNext P l w = .ok (some rk) w') :
    ∃ r ∈ w.rkFiles (rkFile l), scanMatches l r = true ∧ rk = r.xcrypt P.prims w.keys := by
  unfold scanNext at h
  rw [bind_of_ok run_get] at h
  dsimp only at h
  cases hi : ((w.rkFiles (rkFile l)).drop w.cm.rkIdx.toNat).findIdx? (scanMatches l) with
  | none =>
    rw [hi] at h
    obtain ⟨_, w₁, -, h⟩ := bind_eq_ok.mp h
    obtain ⟨hrk, -⟩ := pure_eq_ok.mp h
    cases hrk
  | some i =>
    rw [hi] at h
    obtain ⟨_, w₁, -, h⟩ := bind_eq_ok.mp h
    obtain ⟨hrk, -⟩ := pure_eq_ok.mp h
    obtain ⟨r, hr, rfl⟩ := Option.map_eq_some_iff.mp hrk.symm
    obtain ⟨hlt, hmatch, -⟩ := List.findIdx?_eq_some_iff_getElem.mp hi
    have hget : (List.drop w.cm.rkIdx.toNat (w.rkFiles (rkFile l)))[i] = r := by
      rw [List.getElem?_eq_getElem hlt] at hr
      exact Option.some.inj hr
    exact ⟨r, List.mem_of_mem_drop (hget ▸ List.getElem_mem hlt), hget ▸ hmatch, rfl⟩

/-- The record that is found for a credential ID. -/
theorem findCredential_found {id : CredentialId} {fuel : Nat} {w w' : World} {rk : ResidentKey}
    (h : findCredential P id fuel w = .ok rk w') :
    ∃ r ∈ w.rkFiles (rkFile id.rpIdLookup), id.rpIdLookup = r.id.rpIdLookup ∧
      id.tag = r.id.tag ∧ rk = r.xcrypt P.prims w.keys := by
  induction fuel generalizing w with
  | zero => simp [findCredential] at h
  | succ fuel ih =>
    unfold findCredential at h
    obtain ⟨found, w₁, hscan, h⟩ := bind_eq_ok.mp h
    have hfiles : w₁.rkFiles = w.rkFiles := (touches_scanNext .rkFiles (by decide)).ok hscan
    have hkeys : w₁.keys = w.keys := (touches_scanNext .keys (by decide)).ok hscan
    cases found with
    | none => simp at h
    | some rk₁ =>
      dsimp only at h
      by_cases htag : id.tag = rk₁.id.tag
      · rw [if_pos htag] at h
        obtain ⟨rfl, -⟩ := pure_eq_ok.mp h
        obtain ⟨r, hr, hmatch, rfl⟩ := scanNext_found hscan
        simp only [scanMatches, Bool.and_eq_true, decide_eq_true_eq] at hmatch
        exact ⟨r, hr, hmatch.2, htag, rfl⟩
      · rw [if_neg htag] at h
        obtain ⟨r, hr, h₁, h₂, h₃⟩ := ih h
        rw [hfiles] at hr
        rw [hkeys] at h₃
        exact ⟨r, hr, h₁, h₂, h₃⟩

/-- An updated record keeps its credential ID and user. -/
theorem updatedRecord_same {k : SessionKeys} {r : ResidentKey} {user : UserEntity} {nonce : Bytes 16} :
    (updatedRecord P k (r.xcrypt P.prims k) user nonce).id = r.id ∧
      (updatedRecord P k (r.xcrypt P.prims k) user nonce).userIdLookup = r.userIdLookup := by
  simp only [updatedRecord, ResidentKey.xcrypt, ResidentKey.setUser, and_self]

theorem updatedRecord_key {k : SessionKeys} {r : ResidentKey} {user : UserEntity} {nonce : Bytes 16} :
    (updatedRecord P k (r.xcrypt P.prims k) user nonce).key = r.key := by
  simp only [ResidentKey.key, updatedRecord_same]

/-- An updated record verifies. -/
theorem authentic_updatedRecord {k : SessionKeys} {r : ResidentKey} (hr : r.Authentic P.prims k)
    {user : UserEntity} {nonce : Bytes 16} :
    (updatedRecord P k (r.xcrypt P.prims k) user nonce).Authentic P.prims k := by
  refine ⟨?_, ?_⟩
  · simp [updatedRecord, ctapVerifyMac, ResidentKey.macInput]
  · rw [updatedRecord_same.1]
    exact hr.tag

/-- What updateUserInformation keeps: it writes an updated record in the place of a stored one. -/
theorem preserves_updateUserInformation_of_update {I : World → Prop} (hI : Ignores [.inputs, .cm] I)
    (hover : ∀ w r user nonce, I w → r ∈ w.rkFiles (rkFile r.id.rpIdLookup) →
      Ends (ctapOverwriteRk P (updatedRecord P w.keys (r.xcrypt P.prims w.keys) user nonce)) w (fun _ => I) fun _ => I)
    {params : SubCommandParams} : Preserves I (updateUserInformation P params) := by
  refine preserves_failIf.bind fun _ => preserves_of_ends fun w hw => ?_
  have hclear : Preserves I clearState := hI.preserves touches_clearState (by decide)
  unfold updateCredentialUserInfo
  rw [ends_bind]
  refine (hclear.ends hw).mono (fun _ w₁ hw₁ => ?_) fun _ _ h => h
  rw [ends_bind, ends_get, ends_bind]
  have hfind : Preserves I (findCredential P params.credentialDescriptor.id
      ((w₁.rkFiles (rkFile params.credentialDescriptor.id.rpIdLookup)).length + 1)) :=
    hI.preserves touches_findCredential (by decide)
  refine ends_of_runs (fun rk w₂ hok => ?_) fun e w₂ herr => (hfind.ends hw₁).error herr
  have hw₂ : I w₂ := (hfind.ends hw₁).ok hok
  have hfiles : w₂.rkFiles = w₁.rkFiles := (touches_findCredential .rkFiles (by decide)).ok hok
  have hkeys : w₂.keys = w₁.keys := (touches_findCredential .keys (by decide)).ok hok
  obtain ⟨r, hr, hlookup, -, rfl⟩ := findCredential_found hok
  rw [ends_bind, ends_failIf]
  refine ⟨fun _ => hw₂, fun _ => ?_⟩
  let w₃ : World := { w₂ with rngPos := w₂.rngPos + 16 }
  have hw₃ : I w₃ := hI w₂ w₃ (fun p hp => by cases p <;> first | rfl | simp at hp) hw₂
  rw [ends_bind]
  refine ends_of_ok (show ctapGenerateRng 16 w₂ = .ok _ w₃ from rfl) ?_
  have hmem : r ∈ w₃.rkFiles (rkFile r.id.rpIdLookup) := by
    rw [show w₃.rkFiles = w₁.rkFiles from hfiles, ← hlookup]
    exact hr
  rw [ends_bind, ← show w₃.keys = w₁.keys from hkeys]
  refine (hover w₃ r _ _ hw₃ hmem).mono (fun _ w₄ hw₄ => ?_) fun _ _ h => h
  exact (hclear.bind fun _ => preserves_pure).ends hw₄

theorem KeptByStoring.updateUserInformation {I : World → Prop} (hover : KeptByStoring P I)
    (hI : Ignores [.inputs, .cm] I) {params : SubCommandParams} :
    Preserves I (updateUserInformation P params) := by
  refine preserves_updateUserInformation_of_update hI fun w r user nonce hw hr => ?_
  obtain ⟨hid, huser⟩ := @updatedRecord_same P w.keys r user nonce
  refine hover w _ hw (.update r ?_ hid huser fun hauth => authentic_updatedRecord hauth)
  rw [hid]
  exact hr

theorem keptByStoring_storeOk : KeptByStoring P (StoreOk P) := by
  intro w rk hw hrk
  have hover : Ends (ctapOverwriteRk P rk) w (fun _ => StoreOk P) fun _ _ => False := by
    cases hrk with
    | new hroom hauth => exact hw.overwrite rk hauth (.inl hroom)
    | update r hr hid huser hauth =>
      refine hw.overwrite rk (hauth (hw.authentic _ r hr)) (.inr ?_)
      rw [show rk.key = r.key by rw [ResidentKey.key, hid, huser, ResidentKey.key]]
      exact List.mem_map_of_mem hr
  exact hover.mono (fun _ _ h => h) fun _ _ h => h.elim

/-- An empty store. -/
theorem StoreOk.empty {w : World} (hk : w.keys = P.deriveSessionKeys w.state.keySalt)
    (hf : w.rkFiles = fun _ => []) (hc : w.state.rkStored = 0) : StoreOk P w := by
  have hstored : w.stored = 0 := by simp [World.stored, hf]
  exact ⟨hk, by simp [hf], by simp [hf], by rw [hstored, hc]; rfl, by omega, by simp [hf]⟩

theorem storeOk_ctapReset : Preserves (StoreOk P) (ctapReset P) := by
  refine preserves_of_ends fun w hw => (ctapReset_ends w).mono (fun _ w' h => ?_) fun _ w' h => ?_
  · obtain ⟨salt, hstate⟩ := h.state
    exact .empty h.keys h.rkFiles (by rw [hstate]; rfl)
  · exact ignores_storeOk.mono (S := [.inputs, .assertionEvents]) (by decide) w w' h hw

theorem storeOk_dispatch (c : Command) (request : List UInt8) :
    Preserves (StoreOk P) (dispatch P c request) :=
  preserves_dispatch (ignores_storeOk.mono (by decide))
    (preserves_ctapMakeCredential (ignores_storeOk.mono (by decide)) fun _ _ _ _ _ _ hn =>
      keptByStoring_storeOk.makeAttestedData (ignores_storeOk.mono (by decide)) hn)
    (ignores_storeOk.preserves touches_ctapClientPin (by decide))
    (preserves_ctapCredentialManagement (ignores_storeOk.mono (by decide))
      (fun _ => storeOk_deleteCredential) fun _ =>
      keptByStoring_storeOk.updateUserInformation (ignores_storeOk.mono (by decide)))
    c fun _ => storeOk_ctapReset

end Store

/-! ## Runs -/

section Runs

variable {P : Platform}

theorem started_keeps (s : AuthState) (v : UInt32) :
    (s.started v).keySalt = s.keySalt ∧ (s.started v).rkStored = s.rkStored := by
  unfold AuthState.started
  split <;> exact ⟨rfl, rfl⟩

/-- A power cycle derives the keys of the stored salt again. -/
theorem StoreOk.boots {w w' : World} (hw : StoreOk P w) (hs : Synced P w) (hb : Boots P w w') :
    StoreOk P w' := by
  obtain ⟨hstate, -, hfiles, -, hst⟩ := hb.of_stored hs.file hs.version
  obtain ⟨hsalt, hcount⟩ := started_keeps w.state w'.appVersion
  rw [← hstate] at hsalt hcount
  have hkeys : w'.keys = w.keys := by rw [hst.keys, hsalt, hw.keys]
  have hstored : w'.stored = w.stored := by unfold World.stored; rw [hfiles]
  refine ⟨hst.keys, ?_, ?_, by rw [hcount, hstored, hw.counted], by rw [hstored]; exact hw.bounded, ?_⟩
  · rw [hfiles]; exact hw.placed
  · rw [hfiles]; exact hw.unique
  · rw [hfiles, hkeys]; exact hw.authentic

theorem Run.storeOk {h : List Entry} {w : World} (hr : Run P h w) : StoreOk P w := by
  induction hr with
  | start hw hb =>
    obtain ⟨salt, hstate, -, hfiles, hst⟩ := hb.of_new hw
    exact .empty hst.keys hfiles (by rw [hstate]; rfl)
  | request hr r hv hb ih =>
    exact hv.invariant (ignores_storeOk.mono (by decide)) (storeOk_dispatch _ _) (hb ▸ ih)
  | boot hr hb ih => exact ih.boots hr.synced hb

/-- All records, file by file. -/
def World.records (w : World) : List ResidentKey := (List.finRange 16).flatMap w.rkFiles

theorem mem_records {w : World} {rk : ResidentKey} : rk ∈ w.records ↔ ∃ n, rk ∈ w.rkFiles n := by
  unfold World.records
  simp

theorem length_records (w : World) : w.records.length = w.stored := by
  unfold World.records World.stored
  rw [List.length_flatMap, Fin.sum_univ_def]

theorem StoreOk.records_nodup {w : World} (hw : StoreOk P w) :
    (w.records.map ResidentKey.key).Nodup := by
  unfold World.records
  rw [List.map_flatMap, List.nodup_flatMap]
  refine ⟨fun n _ => hw.unique n, ?_⟩
  refine (List.nodup_finRange 16).imp ?_
  intro m n hmn x hx hy
  obtain ⟨r, hr, rfl⟩ := List.mem_map.mp hx
  obtain ⟨r', hr', hkey⟩ := List.mem_map.mp hy
  have hlookup : r'.id.rpIdLookup = r.id.rpIdLookup := congrArg Prod.fst hkey
  exact hmn (by rw [← hw.placed m r hr, ← hw.placed n r' hr', hlookup])

/-- In every reachable state: a record lies in the file of its lookup MAC, no two records share RP and
user, `rk_stored` counts them and is at most 200, and both MACs of every record verify. -/
theorem reachable_store_ok {w : World} (h : Reachable P w) :
    (∀ n, ∀ rk ∈ w.rkFiles n, (rk.id.rpIdLookup.byte 0).toNat / 16 = n.val) ∧
    (w.records.map fun rk => (rk.id.rpIdLookup, rk.userIdLookup)).Nodup ∧
    w.state.rkStored.toNat = w.records.length ∧ w.state.rkStored ≤ 200 ∧
    ∀ rk ∈ w.records, ctapVerifyMac P.prims w.keys rk.rkTag rk.macInput = true ∧
      rk.id.tag = ctapMakeAuthTag P.prims w.keys rk.id.version rk.id.rpIdLookup rk.id.nonce
        rk.id.protectedMetadata rk.id.count := by
  obtain ⟨hist, hr⟩ := h
  have hw := hr.storeOk
  have hc := hw.counted
  have hb := hw.bounded
  refine ⟨?_, hw.records_nodup, by rw [hc, length_records], ?_, ?_⟩
  · intro n rk hrk
    exact congrArg Fin.val (hw.placed n rk hrk)
  · rw [UInt16.le_iff_toNat_le]
    show w.state.rkStored.toNat ≤ 200
    omega
  · intro rk hrk
    obtain ⟨n, -, hn⟩ := List.mem_flatMap.mp hrk
    exact ⟨(hw.authentic n rk hn).rkTag, (hw.authentic n rk hn).tag⟩

/-- Two users of one RP. -/
theorem reachable_store_ok_two_records :
    ∃ w, Reachable simPlatform w ∧ w.records.length = 2 ∧
      w.state.rkStored.toNat = w.records.length := by
  have heval : ((serveAll simPlatform simStart
      [touched 1 (encMap (makeCredentialMembers "a" 1)), touched 1 (encMap (makeCredentialMembers "a" 2))]).map
      fun x => x.1.records.length) = some 2 := by
    decide +kernel
  obtain ⟨⟨w, rs⟩, hrs, hlen⟩ := Option.map_eq_some_iff.mp heval
  have hreach : Reachable simPlatform w := ⟨_, serveAll_run run_simStart hrs⟩
  exact ⟨w, hreach, hlen, (reachable_store_ok hreach).2.2.1⟩

end Runs

end TkeyFido2
