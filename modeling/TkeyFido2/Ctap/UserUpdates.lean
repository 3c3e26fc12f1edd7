import TkeyFido2.Ctap.RegistrationAtomic
import TkeyFido2.Ctap.RpBinding

/-!
# updateUserInformation

`update_credential_user_info` finds a record by RP and tag, and `ctap_overwrite_rk` writes it back by RP and user.
That is the same record, and of its plain content only the names change.  User IDs are compared over the length of
the stored one: the ID of the request may go on behind it.
-/

namespace TkeyFido2

open Cbor Prog

/-! ## Renamed records -/

/-- The same user ID: the same length and the same bytes. -/
def UserEntity.EqualId (u v : UserEntity) : Prop :=
  u.idSize = v.idSize ∧ u.id.toList.take u.idSize.toNat = v.id.toList.take u.idSize.toNat

instance (u v : UserEntity) : Decidable (u.EqualId v) := inferInstanceAs (Decidable (_ ∧ _))

instance (u v : UserEntity) : Decidable (u.SameId v) := inferInstanceAs (Decidable (_ = _))

theorem UserEntity.EqualId.sameId {u v : UserEntity} (h : u.EqualId v) : u.SameId v := by
  obtain ⟨hsize, hbytes⟩ := h
  unfold UserEntity.SameId
  rw [← hsize, hbytes]

/-- A record with other names, nonce and MAC: the rest of it is the same once both are decrypted, and it verifies. -/
structure ResidentKey.Renamed (C : Primitives) (k : SessionKeys) (user : UserEntity) (rk new : ResidentKey) :
    Prop where
  version : new.version = rk.version
  id : new.id = rk.id
  userIdLookup : new.userIdLookup = rk.userIdLookup
  userId : (new.xcrypt C k).user.id = (rk.xcrypt C k).user.id
  userIdSize : (new.xcrypt C k).user.idSize = (rk.xcrypt C k).user.idSize
  rpIdHash : (new.xcrypt C k).rpIdHash = (rk.xcrypt C k).rpIdHash
  rpId : (new.xcrypt C k).rpId = (rk.xcrypt C k).rpId
  rpIdSize : (new.xcrypt C k).rpIdSize = (rk.xcrypt C k).rpIdSize
  name : (new.xcrypt C k).user.name = user.name
  displayName : (new.xcrypt C k).user.displayName = user.displayName
  verifies : new.Authentic C k

section Renamed

variable {P : Platform} {u v : UserEntity}

/-- The names of one user in the place of another's. -/
def UserEntity.withNames (u v : UserEntity) : UserEntity :=
  (u.setName v.name.toList).setDisplayName v.displayName.toList

theorem id_withNames : (u.withNames v).id = u.id := by
  unfold UserEntity.withNames UserEntity.setDisplayName UserEntity.setName UserEntity.id
  rw [Bytes.slice_patch_of_le _ _ (by decide) (by simp), Bytes.slice_patch_of_le _ _ (by decide) (by simp)]

theorem idSize_withNames : (u.withNames v).idSize = u.idSize := by
  unfold UserEntity.withNames UserEntity.setDisplayName UserEntity.setName UserEntity.idSize
  rw [Bytes.byte_eq_slice _ (by decide), Bytes.byte_eq_slice u.raw (by decide),
    Bytes.slice_patch_of_le _ _ (by decide) (by simp), Bytes.slice_patch_of_le _ _ (by decide) (by simp)]

theorem name_withNames : (u.withNames v).name = v.name := by
  unfold UserEntity.withNames UserEntity.setDisplayName UserEntity.setName
  show Bytes.slice _ 65 65 = _
  rw [Bytes.slice_patch_of_le _ _ (by decide) (by simp), Bytes.slice_patch_self _ _ (by decide)]

theorem displayName_withNames : (u.withNames v).displayName = v.displayName := by
  unfold UserEntity.withNames UserEntity.setDisplayName
  show Bytes.slice _ 130 32 = _
  rw [Bytes.slice_patch_self _ _ (by decide)]

/-- The user is the first part of what is encrypted; the RP behind it is kept. -/
theorem setUser_rp (rk : ResidentKey) : (rk.setUser u).rpIdHash = rk.rpIdHash ∧ (rk.setUser u).rpId = rk.rpId ∧
    (rk.setUser u).rpIdSize = rk.rpIdSize := by
  unfold ResidentKey.setUser ResidentKey.rpIdHash ResidentKey.rpId ResidentKey.rpIdSize
  dsimp only
  rw [Bytes.byte_eq_slice _ (by decide), Bytes.byte_eq_slice rk.userRp (by decide)]
  refine ⟨?_, ?_, ?_⟩
  · exact Bytes.slice_patch_of_ge _ _ (by simp) (by decide)
  · exact Bytes.slice_patch_of_ge _ _ (by simp) (by decide)
  · rw [Bytes.slice_patch_of_ge _ _ (by simp) (by decide)]

/-- The updated record, decrypted. -/
theorem userRp_updatedRecord (hC : P.prims.CtrUndoes) (k : SessionKeys) (rk : ResidentKey) (nonce : Bytes 16) :
    ((updatedRecord P k rk u nonce).xcrypt P.prims k).userRp = (rk.setUser (rk.user.withNames u)).userRp :=
  hC _ _ _ _

theorem rp_updatedRecord (hC : P.prims.CtrUndoes) (k : SessionKeys) (rk : ResidentKey) (nonce : Bytes 16) :
    ((updatedRecord P k rk u nonce).xcrypt P.prims k).rpIdHash = rk.rpIdHash ∧
      ((updatedRecord P k rk u nonce).xcrypt P.prims k).rpId = rk.rpId ∧
      ((updatedRecord P k rk u nonce).xcrypt P.prims k).rpIdSize = rk.rpIdSize := by
  have hrp := userRp_updatedRecord (u := u) hC k rk nonce
  obtain ⟨hhash, hid, hsize⟩ := setUser_rp rk (u := rk.user.withNames u)
  exact ⟨(congrArg (fun b : Bytes 227 => b.slice 162 32) hrp).trans hhash,
    (congrArg (fun b : Bytes 227 => b.slice 194 32) hrp).trans hid,
    (congrArg (fun b : Bytes 227 => b.byte 226) hrp).trans hsize⟩

theorem updatedRecord_renamed (hC : P.prims.CtrUndoes) {k : SessionKeys} {rk : ResidentKey}
    (hrk : rk.Authentic P.prims k) (nonce : Bytes 16) :
    rk.Renamed P.prims k u (updatedRecord P k (rk.xcrypt P.prims k) u nonce) := by
  set plain := rk.xcrypt P.prims k with hplain
  set new := updatedRecord P k plain u nonce with hnew
  have hrp : (new.xcrypt P.prims k).userRp = (plain.setUser (plain.user.withNames u)).userRp :=
    userRp_updatedRecord hC k plain nonce
  have huser : (new.xcrypt P.prims k).user = plain.user.withNames u := by
    rw [← user_setUser plain (plain.user.withNames u)]
    exact congrArg (fun b : Bytes 227 => (⟨b.slice 0 162⟩ : UserEntity)) hrp
  obtain ⟨hhash, hid, hsize⟩ := rp_updatedRecord (u := u) hC k plain nonce
  obtain ⟨hcred, hlookup⟩ : new.id = rk.id ∧ new.userIdLookup = rk.userIdLookup := updatedRecord_same
  refine ⟨rfl, hcred, hlookup, ?_, ?_, hhash, hid, hsize, ?_, ?_, authentic_updatedRecord hrk⟩
  · rw [huser, id_withNames]
  · rw [huser, idSize_withNames]
  · rw [huser, name_withNames]
  · rw [huser, displayName_withNames]

end Renamed

/-! ## Requests -/

/-- The record that a request means: RP and tag of its credential ID, and its user ID. -/
def SubCommandParams.Means (P : Platform) (k : SessionKeys) (params : SubCommandParams) (rk : ResidentKey) : Prop :=
  rk.id.rpIdLookup = params.credentialDescriptor.id.rpIdLookup ∧ rk.id.tag = params.credentialDescriptor.id.tag ∧
    params.credentialDescriptor.user.EqualId (rk.xcrypt P.prims k).user

instance (P : Platform) (k : SessionKeys) (params : SubCommandParams) (rk : ResidentKey) :
    Decidable (params.Means P k rk) := inferInstanceAs (Decidable (_ ∧ _ ∧ _))

/-- An updateUserInformation request that comes to `update_credential_user_info`. -/
structure Served.Updates (P : Platform) (r : Served) (CM : CredMgmt) : Prop extends r.Accepted P CM where
  subCommand : CM.subCommand = 7
  idPresent : CM.params.credentialIdPresent = true
  userPresent : CM.params.credentialUserPresent = true

/-- The request succeeds where it means a stored record, and renames that record and nothing else. -/
structure Served.RenamesMeant (P : Platform) (r : Served) (CM : CredMgmt) : Prop where
  succeeds : r.status = .ok ↔ ∃ rk ∈ r.before.records, CM.params.Means P r.before.keys rk
  renames : r.status = .ok → ∃ n pre rk new post, r.before.rkFiles n = pre ++ rk :: post ∧
    CM.params.Means P r.before.keys rk ∧ rk.Renamed P.prims r.before.keys CM.params.credentialDescriptor.user new ∧
    r.after.rkFiles = Function.update r.before.rkFiles n (pre ++ new :: post) ∧ r.after.rkChanges = [.stored new]
  keeps : r.status ≠ .ok → r.after.rkFiles = r.before.rkFiles ∧ r.after.rkChanges = []
  counted : r.after.state.rkStored = r.before.state.rkStored

/-- The record that the search stops at. -/
def Served.found (r : Served) (CM : CredMgmt) : Option ResidentKey :=
  (r.before.rkFiles (rkFile CM.params.credentialDescriptor.id.rpIdLookup)).find? CM.params.credentialDescriptor.id.names

/-- A user ID that begins like that of the record is that of the record. -/
def Served.NoOtherIdMatches (P : Platform) (r : Served) (CM : CredMgmt) : Prop :=
  ∀ rk, r.found CM = some rk →
    CM.params.credentialDescriptor.user.SameId (rk.xcrypt P.prims r.before.keys).user →
      CM.params.credentialDescriptor.user.EqualId (rk.xcrypt P.prims r.before.keys).user

/-- If a stored record is meant, then the search stops at such a record: its count is valid and no record before
it has the tag. -/
def Served.FindsMeant (P : Platform) (r : Served) (CM : CredMgmt) : Prop :=
  (∃ rk ∈ r.before.records, CM.params.Means P r.before.keys rk) →
    ∃ rk, r.found CM = some rk ∧ CM.params.Means P r.before.keys rk

section Updates

variable {P : Platform} {r : Served} {CM : CredMgmt}

theorem Served.found_spec {rk : ResidentKey} (h : r.found CM = some rk) :
    rk ∈ r.before.rkFiles (rkFile CM.params.credentialDescriptor.id.rpIdLookup) ∧
      rk.id.rpIdLookup = CM.params.credentialDescriptor.id.rpIdLookup ∧
      rk.id.tag = CM.params.credentialDescriptor.id.tag := by
  have hnames : CM.params.credentialDescriptor.id.names rk = true := List.find?_some h
  simp only [CredentialId.names, scanMatches, Bool.and_eq_true, decide_eq_true_eq] at hnames
  exact ⟨List.mem_of_find?_eq_some h, hnames.1.2.symm, hnames.2.symm⟩

/-- The two ends of an update. -/
theorem Served.Updates.ends (hC : P.prims.CtrUndoes) (hu : r.Updates P CM) (hv : r.Valid P)
    (hw : StoreOk P r.before) : r.after.state.rkStored = r.before.state.rkStored ∧
    ((r.status = .ok ∧ ∃ pre rk new post,
        r.before.rkFiles (rkFile CM.params.credentialDescriptor.id.rpIdLookup) = pre ++ rk :: post ∧
        r.found CM = some rk ∧
        CM.params.credentialDescriptor.user.SameId (rk.xcrypt P.prims r.before.keys).user ∧
        rk.Renamed P.prims r.before.keys CM.params.credentialDescriptor.user new ∧
        r.after.rkFiles = Function.update r.before.rkFiles (rkFile CM.params.credentialDescriptor.id.rpIdLookup)
          (pre ++ new :: post) ∧ r.after.rkChanges = [.stored new]) ∨
      (r.status ≠ .ok ∧ r.after.rkFiles = r.before.rkFiles ∧ r.after.rkChanges = [] ∧ ∀ rk, r.found CM = some rk →
        ¬ CM.params.credentialDescriptor.user.SameId (rk.xcrypt P.prims r.before.keys).user)) := by
  obtain ⟨w₁, w₂, hver, hafter, hd⟩ := hu.command_run hv
  obtain ⟨hfiles, hkeys, -, -, -, -⟩ := verifyPinAuth_keeps hver
  have hsame : (r.before.withInputs r.after.inputs).SameStore w₁ :=
    touches_verifyPinAuthForCredentialManagement.sameStore_ok (by decide) (by decide) hver
  have hstored₁ : w₁.state.rkStored = r.before.state.rkStored := hsame.2
  have hchanges₁ : w₁.rkChanges = [] :=
    ((touches_verifyPinAuthForCredentialManagement .rkChanges (by decide)).ok hver).trans rfl
  have hfiles₂ : r.after.rkFiles = w₂.rkFiles := by rw [hafter]
  have hchanges₂ : r.after.rkChanges = w₂.rkChanges := by rw [hafter]; rfl
  have hstored₂ : r.after.state = w₂.state := by rw [hafter]
  rw [credMgmtCommand_update hu.subCommand] at hd
  rw [hfiles₂, hstored₂, hchanges₂]
  set id := CM.params.credentialDescriptor.id with hid
  set user := CM.params.credentialDescriptor.user with huser
  have hlen : (w₁.rkFiles (rkFile id.rpIdLookup)).length ≤ 200 := by
    rw [hfiles]
    exact length_file_le hw _
  have hfound : (w₁.rkFiles (rkFile id.rpIdLookup)).find? id.names = r.found CM := by rw [hfiles]; rfl
  by_cases hmatch : ∃ rk, r.found CM = some rk ∧ user.SameId (rk.xcrypt P.prims r.before.keys).user
  · obtain ⟨rk, hrk, hsame⟩ := hmatch
    obtain ⟨hmem, hlookup, -⟩ := Served.found_spec hrk
    obtain ⟨pre, post, hfile⟩ := List.append_of_mem hmem
    set new := updatedRecord P w₁.keys (rk.xcrypt P.prims w₁.keys) user (streamBytes w₁.inputs.rng.byte w₁.rngPos 16)
      with hnew
    have hkey : new.key = rk.key := updatedRecord_key
    have hnewLookup : new.id.rpIdLookup = id.rpIdLookup := (congrArg Prod.fst hkey).trans hlookup
    obtain ⟨w', hrun, hwrite, hstate, hchange⟩ := updateUserInformation_writes (P := P) hlen hu.idPresent hu.userPresent
      (hfound.trans hrk) (by rw [hkeys]; exact hsame) new rfl (l := pre ++ new :: post) (by
        rw [hnewLookup, hfiles, hfile]
        exact overwriteFirst_append hkey (hfile ▸ hw.unique _))
    rcases hd with ⟨hok, hd⟩ | ⟨e, -, hd⟩
    · obtain ⟨-, rfl⟩ := EStateM.Result.ok.inj (hd.symm.trans hrun)
      refine ⟨by rw [hstate, hstored₁], .inl ⟨hok, pre, rk, new, post, hfile, hrk, hsame, ?_, ?_, ?_⟩⟩
      · rw [hnew, hkeys]
        exact updatedRecord_renamed hC (hw.authentic _ rk hmem) _
      · rw [hwrite, hfiles, hnewLookup]
      · rw [hchange, hchanges₁]
        rfl
    · rw [hrun] at hd
      cases hd
  · have hnone : ∀ rk, r.found CM = some rk → ¬ user.SameId (rk.xcrypt P.prims r.before.keys).user :=
      fun rk hrk hsame => hmatch ⟨rk, hrk, hsame⟩
    obtain ⟨e, w', hrun, hkeep, hstate, hchange⟩ := updateUserInformation_keeps (P := P) hlen fun _ _ rk hrk =>
      hkeys ▸ hnone rk (hfound.symm.trans hrk)
    rcases hd with ⟨-, hd⟩ | ⟨e', herr, hd⟩
    · rw [hrun] at hd
      cases hd
    · obtain ⟨-, rfl⟩ := EStateM.Result.error.inj (hd.symm.trans hrun)
      refine ⟨by rw [hstate, hstored₁], .inr ⟨by rw [herr]; exact CtapStatus.noConfusion, ?_, ?_, hnone⟩⟩
      · rw [hkeep, hfiles]
      · rw [hchange, hchanges₁]

/-- An updateUserInformation request that does not come so far. -/
theorem Served.Valid.update_refused (hv : r.Valid P) (hc : commandOf r.cmd = .credentialManagement)
    (hparse : parseCredentialManagementRequest r.request = .ok CM) (hsub : CM.subCommand = 7)
    (hno : ¬ r.Updates P CM) : r.status ≠ .ok ∧ r.before.SameStore r.after := by
  obtain ⟨w₂, hafter, hd⟩ := hv.run
  set start := r.before.withInputs r.after.inputs with hstart
  rw [hc] at hd
  suffices herror : ∃ e w', dispatch P .credentialManagement r.request start = .error e w' ∧ start.SameStore w' by
    obtain ⟨e, w', hrun, hsame⟩ := herror
    rcases hd with ⟨-, hd⟩ | ⟨e', hstatus, hd⟩
    · rw [hrun] at hd
      cases hd
    · obtain ⟨-, rfl⟩ := EStateM.Result.error.inj (hrun.symm.trans hd)
      rw [hafter]
      exact ⟨by rw [hstatus]; exact CtapStatus.noConfusion, hsame⟩
  unfold dispatch
  rw [get_bind]
  by_cases hlock : Command.checksLock .credentialManagement = true ∧ clientPinIsLocked start = true
  · exact ⟨_, start, failIf_bind_of hlock, rfl, rfl⟩
  rw [failIf_bind_of_not hlock, get_bind]
  by_cases hboot : Command.checksLock .credentialManagement = true ∧ clientPinIsBootLocked start = true
  · exact ⟨_, start, failIf_bind_of hboot, rfl, rfl⟩
  rw [failIf_bind_of_not hboot]
  show ∃ e w', ctapCredentialManagement P r.request start = .error e w' ∧ _
  unfold ctapCredentialManagement
  rw [bind_of_ok (ctapCheck_eq_ok.mpr ⟨hparse, rfl⟩)]
  have htouch : Touches [.inputs, .token, .verified, .usage] (verifyPinAuthForCredentialManagement P CM) :=
    touches_verifyPinAuthForCredentialManagement
  cases hver : verifyPinAuthForCredentialManagement P CM start with
  | error e w₁ =>
    exact ⟨e, w₁, bind_eq_error.mpr (.inl hver), htouch.sameStore_error (by decide) (by decide) hver⟩
  | ok _ w₁ =>
    have hopen : ¬ clientPinIsLocked r.before = true := fun h => hlock ⟨rfl, h⟩
    have hopenBoot : ¬ clientPinIsBootLocked r.before = true := fun h => hboot ⟨rfl, h⟩
    have haccepted : r.Accepted P CM :=
      ⟨hc, Bool.eq_false_of_not_eq_true hopen, Bool.eq_false_of_not_eq_true hopenBoot, hparse, by rw [hsub]; decide,
        w₁, hver⟩
    have hmissing : ¬ CM.params.credentialIdPresent = true ∨ ¬ CM.params.credentialUserPresent = true := by
      by_contra hall
      rw [not_or, not_not, not_not] at hall
      exact hno ⟨haccepted, hsub, hall.1, hall.2⟩
    refine ⟨.status .missingParameter, w₁, ?_, htouch.sameStore_ok (by decide) (by decide) hver⟩
    rw [bind_of_ok hver, credMgmtCommand_update hsub]
    exact failIf_bind_of hmissing

/-- An update renames the record that it means, and succeeds for no other, exactly if no other user ID matches and
the search stops at what is meant; a request that does not come to the search fails and changes nothing. -/
theorem update_renames_meant_iff (hC : P.prims.CtrUndoes) (hv : r.Valid P) (hw : StoreOk P r.before) :
    (r.Updates P CM → (r.RenamesMeant P CM ↔ r.NoOtherIdMatches P CM ∧ r.FindsMeant P CM)) ∧
    (commandOf r.cmd = .credentialManagement → parseCredentialManagementRequest r.request = .ok CM →
      CM.subCommand = 7 → ¬ r.Updates P CM → r.status ≠ .ok ∧ r.before.SameStore r.after) := by
  refine ⟨fun hu => ?_, hv.update_refused⟩
  obtain ⟨hcounted, ⟨hok, pre, rk, new, post, hfile, hrk, hsame, hnew, hafter, hchange⟩ |
    ⟨hfail, hkeep, hchange, hnone⟩⟩ := hu.ends hC hv hw
  · obtain ⟨hmem, hlookup, htag⟩ := Served.found_spec hrk
    constructor
    · intro hrenames
      obtain ⟨n, pre', rk', new', post', hfile', hmeans, hnew', -, hchange'⟩ := hrenames.renames hok
      obtain rfl : new = new' := RkChange.stored.inj (List.singleton_inj.mp (hchange.symm.trans hchange'))
      have hmem' : rk' ∈ r.before.rkFiles n := by simp [hfile']
      have hn : rkFile CM.params.credentialDescriptor.id.rpIdLookup = n := by
        rw [← hw.placed n rk' hmem', hmeans.1]
      have hkey : rk.key = rk'.key := by
        rw [ResidentKey.key, ResidentKey.key, ← hnew.id, ← hnew.userIdLookup, hnew'.id, hnew'.userIdLookup]
      obtain rfl : rk = rk' := List.inj_on_of_nodup_map (hw.unique n) (hn ▸ hmem) hmem' hkey
      refine ⟨fun other hother _ => ?_, fun _ => ⟨rk, hrk, hmeans⟩⟩
      obtain rfl : rk = other := Option.some.inj (hrk.symm.trans hother)
      exact hmeans.2.2
    · rintro ⟨hexact, -⟩
      have hmeans : CM.params.Means P r.before.keys rk := ⟨hlookup, htag, hexact rk hrk hsame⟩
      exact ⟨iff_of_true hok ⟨rk, mem_records.mpr ⟨_, hmem⟩, hmeans⟩,
        fun _ => ⟨_, pre, rk, new, post, hfile, hmeans, hnew, hafter, hchange⟩, fun h => absurd hok h, hcounted⟩
  · constructor
    · intro hrenames
      exact ⟨fun rk hrk hsame => absurd hsame (hnone rk hrk),
        fun hmeant => absurd (hrenames.succeeds.mpr hmeant) hfail⟩
    · rintro ⟨-, hfinds⟩
      refine ⟨iff_of_false hfail fun hmeant => ?_, fun h => absurd h hfail, fun _ => ⟨hkeep, hchange⟩, hcounted⟩
      obtain ⟨rk, hrk, -, -, hequal⟩ := hfinds hmeant
      exact hnone rk hrk hequal.sameId

end Updates

/-! ## A user with a one-byte ID -/

/-- A credential of RP a for the user ID 1, a token with the permission cm, and under it an update for a user ID. -/
def renameUser (userId : List UInt8) : Option (World × List Served) :=
  (serveAll simPlatform simStart [touched 1 (encMap (makeCredentialMembers "a" 1)), touched 6 (setPinRequest "1234"),
    touched 6 (getTokenRequest "1234" 4 "a")]).bind fun x =>
  (serveAll simPlatform x.1 [touched 0x0a (credMgmtRequest 7
    [([1], encBytes (simSha256 (ascii "a")).toList), ([2], encCredential (x.1.records.head?.getD {}).id),
      ([3], encMap [(encString "id", encBytes userId), (encString "name", encString "n"),
        (encString "displayName", encString "d")])])]).map fun y => (y.1, y.2 ++ x.2)

/-- An update that ends well, with a test of its parameters. -/
def Served.updatesWith (r : Served) (test : CredMgmt → Bool) : Bool :=
  r.status = .ok && r.isBoundTo simPlatform (ascii "a") &&
    match parseCredentialManagementRequest r.request with
    | .ok CM => CM.subCommand = 7 && CM.params.credentialIdPresent && CM.params.credentialUserPresent && test CM
    | .error _ => false

theorem renameUser_spec (userId : List UInt8) (test : Served → CredMgmt → Bool)
    (h : ((renameUser userId).any fun x => x.2.head?.any fun r => r.updatesWith (test r)) = true) :
    ∃ (r : Served) (CM : CredMgmt), r.Updates simPlatform CM ∧ r.Valid simPlatform ∧ StoreOk simPlatform r.before ∧ r.status = .ok ∧
      test r CM = true := by
  obtain ⟨⟨w, rs⟩, hrs, hhead⟩ := (Option.any_eq_true _ _).mp h
  obtain ⟨r, hr, hupdates⟩ := (Option.any_eq_true _ _).mp hhead
  obtain ⟨rs', rfl⟩ := List.head?_eq_some_iff.mp hr
  obtain ⟨⟨w₁, rs₁⟩, h₁, hrs⟩ := Option.bind_eq_some_iff.mp hrs
  obtain ⟨⟨w₂, rs₂⟩, h₂, heq⟩ := Option.map_eq_some_iff.mp hrs
  have hrun := serveAll_run (serveAll_run run_simStart h₁) h₂
  rw [← List.append_assoc, ← List.map_append, (Prod.mk.inj heq).2] at hrun
  obtain ⟨hbefore, hv, -⟩ := hrun.of_request
  unfold Served.updatesWith at hupdates
  rw [Bool.and_eq_true, Bool.and_eq_true, decide_eq_true_eq] at hupdates
  obtain ⟨⟨hok, hbound⟩, hparams⟩ := hupdates
  obtain ⟨CM, hb⟩ := Served.boundTo_of_isBoundTo hbound
  rw [hb.parsed] at hparams
  simp only [Bool.and_eq_true, decide_eq_true_eq] at hparams
  obtain ⟨⟨⟨hsub, hid⟩, huser⟩, htest⟩ := hparams
  exact ⟨r, CM, ⟨hb.toAccepted, hsub, hid, huser⟩, hv, hbefore.storeOk, hok, htest⟩

/-- The user ID of the record. -/
theorem update_renames_meant_iff_same_id :
    ∃ (r : Served) (CM : CredMgmt), r.Updates simPlatform CM ∧ r.status = .ok ∧ r.RenamesMeant simPlatform CM := by
  obtain ⟨r, CM, hu, hv, hw, hok, htest⟩ := renameUser_spec [1]
    (fun r CM => (r.found CM).any fun rk => decide (CM.params.Means simPlatform r.before.keys rk))
    (by decide +kernel)
  obtain ⟨rk, hrk, hmeans⟩ := (Option.any_eq_true _ _).mp htest
  have hmeans' : CM.params.Means simPlatform r.before.keys rk := of_decide_eq_true hmeans
  refine ⟨r, CM, hu, hok, ((update_renames_meant_iff simCipher_undoes hv hw).1 hu).mpr ⟨?_, fun _ => ⟨rk, hrk, hmeans'⟩⟩⟩
  intro other hother _
  obtain rfl : rk = other := Option.some.inj (hrk.symm.trans hother)
  exact hmeans'.2.2

/-- The user ID 1, 2 is taken for the user ID 1. -/
theorem update_for_longer_user_id :
    ∃ (r : Served) (CM : CredMgmt), r.Updates simPlatform CM ∧ r.Valid simPlatform ∧ StoreOk simPlatform r.before ∧ r.status = .ok ∧
      ¬ r.RenamesMeant simPlatform CM := by
  obtain ⟨r, CM, hu, hv, hw, hok, htest⟩ := renameUser_spec [1, 2]
    (fun r CM => r.before.records.all fun rk => !decide (CM.params.Means simPlatform r.before.keys rk))
    (by decide +kernel)
  refine ⟨r, CM, hu, hv, hw, hok, fun hrenames => ?_⟩
  obtain ⟨rk, hrk, hmeans⟩ := hrenames.succeeds.mp hok
  have hnot := List.all_eq_true.mp htest rk hrk
  rw [Bool.not_eq_true', decide_eq_false_iff_not] at hnot
  exact hnot hmeans

end TkeyFido2
