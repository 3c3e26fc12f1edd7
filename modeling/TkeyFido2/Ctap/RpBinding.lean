import Mathlib.Algebra.Order.BigOperators.Group.Finset
import TkeyFido2.Ctap.Store
import TkeyFido2.Ctap.Token

/-!
# Tokens that are bound to an RP

credentialManagement compares the RP ID of a token with the rpIdHash of the request, but deletes and
updates the record that the credential ID names.  What an accepted request changes outside the RP of
its token, and what an enumeration shows.
-/

namespace TkeyFido2

open Cbor Prog

/-! ## Records of other RPs -/

/-- The records of a file whose lookup MAC is not `L`. -/
def othersThan (L : Bytes 16) (l : List ResidentKey) : List ResidentKey :=
  l.filter fun rk => rk.id.rpIdLookup ≠ L

/-- The record that `update_credential_user_info` stops at. -/
def CredentialId.names (id : CredentialId) (rk : ResidentKey) : Bool :=
  scanMatches id.rpIdLookup rk && id.tag = rk.id.tag

section Files

variable {L : Bytes 16} {rk r : ResidentKey} {id : CredentialId} {l l' : List ResidentKey}

theorem othersThan_cons : othersThan L (r :: l)
    = if r.id.rpIdLookup = L then othersThan L l else r :: othersThan L l := by
  unfold othersThan
  by_cases h : r.id.rpIdLookup = L <;> simp [h]

/-- A deletion is seen by the other RPs unless the record was of the RP. -/
theorem othersThan_deleteFirst (h : deleteFirst id l = some l') :
    othersThan L l' = othersThan L l ↔ id.rpIdLookup = L := by
  induction l generalizing l' with
  | nil => simp [deleteFirst] at h
  | cons r l ih =>
    unfold deleteFirst at h
    split at h
    · rename_i hkey
      obtain rfl := Option.some.inj h
      rw [othersThan_cons, hkey.1]
      by_cases hL : r.id.rpIdLookup = L
      · simp [hL]
      · rw [if_neg hL]
        exact ⟨fun heq => absurd (congrArg List.length heq) (by simp), fun heq => absurd heq hL⟩
    · obtain ⟨l₁, hl₁, rfl⟩ := Option.map_eq_some_iff.mp h
      rw [othersThan_cons, othersThan_cons]
      by_cases hL : r.id.rpIdLookup = L
      · rw [if_pos hL, if_pos hL]
        exact ih hl₁
      · rw [if_neg hL, if_neg hL, List.cons_inj_right]
        exact ih hl₁

theorem deleteFirst_eq_none : deleteFirst id l = none ↔
    ∀ r ∈ l, ¬ (id.rpIdLookup = r.id.rpIdLookup ∧ id.tag = r.id.tag) := by
  induction l with
  | nil => simp [deleteFirst]
  | cons r l ih =>
    unfold deleteFirst
    by_cases h : id.rpIdLookup = r.id.rpIdLookup ∧ id.tag = r.id.tag
    · simp [h]
    · rw [if_neg h, Option.map_eq_none_iff, ih, List.forall_mem_cons]
      exact ⟨fun hl => ⟨h, hl⟩, fun hl => hl.2⟩

/-- One file of the store was replaced. -/
theorem othersThan_update {f : Fin 16 → List ResidentKey} {m : Fin 16} :
    (∀ n, othersThan L (Function.update f m l n) = othersThan L (f n)) ↔
      othersThan L l = othersThan L (f m) := by
  constructor
  · intro h
    have := h m
    rwa [Function.update_self] at this
  · intro h n
    by_cases hn : n = m
    · subst hn
      rwa [Function.update_self]
    · rw [Function.update_of_ne hn]

/-- A record is replaced, at its place, by one for the same RP and user. -/
theorem overwriteFirst_append {pre post : List ResidentKey} (hkey : rk.key = r.key)
    (hnodup : ((pre ++ r :: post).map ResidentKey.key).Nodup) :
    overwriteFirst rk (pre ++ r :: post) = some (pre ++ rk :: post) := by
  have hsame : r.id.rpIdLookup = rk.id.rpIdLookup ∧ r.userIdLookup = rk.userIdLookup :=
    ⟨(congrArg Prod.fst hkey).symm, (congrArg Prod.snd hkey).symm⟩
  induction pre with
  | nil =>
    unfold overwriteFirst
    exact if_pos hsame
  | cons x pre ih =>
    rw [List.cons_append, List.map_cons, List.nodup_cons] at hnodup
    have hx : ¬ (x.id.rpIdLookup = rk.id.rpIdLookup ∧ x.userIdLookup = rk.userIdLookup) := by
      intro hx
      refine hnodup.1 ?_
      rw [show x.key = r.key from (Prod.ext hx.1 hx.2 : x.key = rk.key).trans hkey]
      exact List.mem_map_of_mem (by simp)
    rw [List.cons_append, overwriteFirst, if_neg hx, ih hnodup.2]
    rfl

theorem othersThan_append {post : List ResidentKey} :
    othersThan L (l ++ post) = othersThan L l ++ othersThan L post := List.filter_append ..

/-- What a replacement leaves to the other RPs. -/
theorem othersThan_replaced {pre post : List ResidentKey} (hlookup : rk.id.rpIdLookup = r.id.rpIdLookup) :
    othersThan L (pre ++ rk :: post) = othersThan L (pre ++ r :: post) ↔ rk.id.rpIdLookup = L ∨ rk = r := by
  rw [othersThan_append, othersThan_append, List.append_cancel_left_eq, othersThan_cons, othersThan_cons, hlookup]
  by_cases hL : r.id.rpIdLookup = L
  · simp [hL]
  · simp [hL]

end Files

/-! ## The record that is updated -/

section Update

variable {P : Platform}

/-- The first element with two properties, from the first one with one of them. -/
theorem find?_and {α : Type} {p q : α → Bool} {l : List α} {i : Nat} {a : α}
    (hi : l.findIdx? p = some i) (ha : l[i]? = some a) :
    l.find? (fun x => p x && q x)
      = if q a then some a else (l.drop (i + 1)).find? fun x => p x && q x := by
  induction l generalizing i with
  | nil => simp at hi
  | cons x l ih =>
    rw [List.findIdx?_cons] at hi
    by_cases hx : p x = true
    · rw [if_pos hx] at hi
      obtain rfl := Option.some.inj hi
      obtain rfl : x = a := by simpa using ha
      cases hq : q x <;> simp [hx, hq]
    · rw [if_neg hx] at hi
      obtain ⟨j, hj, rfl⟩ := Option.map_eq_some_iff.mp hi
      rw [List.find?_cons_of_neg (by simp [hx]), ih hj (by simpa using ha), List.drop_succ_cons]

theorem scanNext_none {l : Bytes 16} {w : World}
    (h : ((w.rkFiles (rkFile l)).drop w.cm.rkIdx.toNat).findIdx? (scanMatches l) = none) :
    scanNext P l w = .ok none { w with cm := { w.cm with rkIdx := 0 } } := by
  unfold scanNext
  rw [get_bind]
  dsimp only
  rw [h]
  rfl

theorem scanNext_some {l : Bytes 16} {w : World} {i : Nat} {r : ResidentKey}
    (h : ((w.rkFiles (rkFile l)).drop w.cm.rkIdx.toNat).findIdx? (scanMatches l) = some i)
    (hr : ((w.rkFiles (rkFile l)).drop w.cm.rkIdx.toNat)[i]? = some r) :
    scanNext P l w = .ok (some (r.xcrypt P.prims w.keys))
      { w with cm := { w.cm with rkIdx := UInt8.ofNat (w.cm.rkIdx.toNat + i + 1) } } := by
  unfold scanNext
  rw [get_bind]
  dsimp only
  rw [h]
  dsimp only
  rw [hr]
  rfl

/-- The search of `update_credential_user_info` finds the first record that the credential ID names. -/
theorem findCredential_eq {id : CredentialId} {fuel : Nat} {w : World} {file : List ResidentKey}
    (hfile : w.rkFiles (rkFile id.rpIdLookup) = file) (hlen : file.length ≤ 200)
    (hfuel : file.length < w.cm.rkIdx.toNat + fuel) (h0 : 0 < fuel) :
    ∃ cm, findCredential P id fuel w
      = match (file.drop w.cm.rkIdx.toNat).find? id.names with
        | some r => .ok (r.xcrypt P.prims w.keys) { w with cm := cm }
        | none => .error (.status .noCredentials) { w with cm := cm } := by
  induction fuel generalizing w with
  | zero => cases h0
  | succ fuel ih =>
    unfold findCredential
    cases hi : (file.drop w.cm.rkIdx.toNat).findIdx? (scanMatches id.rpIdLookup) with
    | none =>
      have hnone : (file.drop w.cm.rkIdx.toNat).find? id.names = none := by
        rw [List.find?_eq_none]
        intro r hr
        have := List.findIdx?_eq_none_iff.mp hi r hr
        simp [CredentialId.names, this]
      rw [bind_of_ok (scanNext_none (hfile ▸ hi)), hnone]
      exact ⟨_, rfl⟩
    | some i =>
      obtain ⟨hlt, -, -⟩ := List.findIdx?_eq_some_iff_getElem.mp hi
      obtain ⟨r, hr⟩ : ∃ r, (file.drop w.cm.rkIdx.toNat)[i]? = some r :=
        ⟨_, List.getElem?_eq_getElem hlt⟩
      rw [List.length_drop] at hlt
      let w₁ : World :=
        { w with cm := { w.cm with rkIdx := UInt8.ofNat (w.cm.rkIdx.toNat + i + 1) } }
      have hidx : w₁.cm.rkIdx.toNat = w.cm.rkIdx.toNat + i + 1 := by
        show (UInt8.ofNat (w.cm.rkIdx.toNat + i + 1)).toNat = _
        rw [UInt8.toNat_ofNat']
        omega
      have hfind := find?_and (q := fun rk => (id.tag = rk.id.tag : Bool)) hi hr
      rw [bind_of_ok (scanNext_some (hfile ▸ hi) (hfile ▸ hr))]
      show ∃ cm, (if id.tag = r.id.tag then pure (r.xcrypt P.prims w.keys) else findCredential P id fuel) w₁
        = match (file.drop w.cm.rkIdx.toNat).find? id.names with | some _ => _ | none => _
      rw [show (file.drop w.cm.rkIdx.toNat).find? id.names = _ from hfind]
      by_cases htag : id.tag = r.id.tag
      · rw [if_pos htag, if_pos (by simpa using htag)]
        exact ⟨_, rfl⟩
      · rw [if_neg htag, if_neg (by simpa using htag)]
        obtain ⟨cm, hrec⟩ := ih (w := w₁) hfile (by omega) (by omega)
        refine ⟨cm, ?_⟩
        rw [hrec, hidx, List.drop_drop, Nat.add_assoc]
        rfl

/-- AES in CTR mode is its own inverse. -/
def Primitives.CtrUndoes (C : Primitives) : Prop :=
  ∀ (k : Bytes 32) (iv : Bytes 16) (n : Nat) (b : Bytes n), C.aesCtr k iv (C.aesCtr k iv b) = b

/-- A request that gives a user the names the record has. -/
def UserEntity.SameNames (u v : UserEntity) : Prop := u.name = v.name ∧ u.displayName = v.displayName

theorem user_setUser (r : ResidentKey) (u : UserEntity) : (r.setUser u).user = u := by
  unfold ResidentKey.setUser ResidentKey.user
  dsimp only
  rw [Bytes.slice_patch_self _ _ (by decide)]

theorem setUser_user (r : ResidentKey) : r.setUser r.user = r := by
  unfold ResidentKey.setUser ResidentKey.user
  dsimp only
  rw [Bytes.patch_slice_self _ (by decide)]

/-- Setting both names changes nothing exactly when they are the same. -/
theorem setNames_eq_self {u v : UserEntity} :
    (u.setName v.name.toList).setDisplayName v.displayName.toList = u ↔ v.SameNames u := by
  constructor
  · intro h
    refine ⟨?_, ?_⟩
    · have hname := congrArg UserEntity.name h
      unfold UserEntity.name UserEntity.setDisplayName UserEntity.setName at hname
      rw [Bytes.slice_patch_of_le _ _ (by decide) (by simp), Bytes.slice_patch_self _ _ (by decide)] at hname
      exact hname
    · have hname := congrArg UserEntity.displayName h
      unfold UserEntity.displayName UserEntity.setDisplayName at hname
      rw [Bytes.slice_patch_self _ _ (by decide)] at hname
      exact hname
  · rintro ⟨hname, hdisplay⟩
    rw [hname, hdisplay]
    unfold UserEntity.setName UserEntity.name
    rw [Bytes.patch_slice_self _ (by decide)]
    unfold UserEntity.setDisplayName UserEntity.displayName
    rw [Bytes.patch_slice_self _ (by decide)]

/-- An update leaves the bytes of a record as they are exactly when it draws the nonce that the record
has and gives the user the names it has. -/
theorem updatedRecord_eq_self (hC : P.prims.CtrUndoes) {k : SessionKeys} {r : ResidentKey}
    (hr : r.Authentic P.prims k) {user : UserEntity} {nonce : Bytes 16} :
    updatedRecord P k (r.xcrypt P.prims k) user nonce = r ↔
      nonce = r.rkNonce ∧ user.SameNames (r.xcrypt P.prims k).user := by
  set d := r.xcrypt P.prims k with hd
  set named := (d.user.setName user.name.toList).setDisplayName user.displayName.toList with hnamed
  have hundo (n : Bytes 16) (b : Bytes 227) :
      ctapXcryptBuf P.prims k n (ctapXcryptBuf P.prims k n b) = b := hC _ _ _ _
  constructor
  · intro h
    have hnonce : nonce = r.rkNonce := congrArg ResidentKey.rkNonce h
    refine ⟨hnonce, ?_⟩
    have hrp : ctapXcryptBuf P.prims k nonce (d.setUser named).userRp = r.userRp :=
      congrArg ResidentKey.userRp h
    have hplain : (d.setUser named).userRp = d.userRp := by
      rw [← hundo nonce (d.setUser named).userRp, hrp, hnonce]
      rfl
    have huser : named = d.user := by
      rw [← user_setUser d named]
      exact congrArg (fun b : Bytes 227 => (⟨b.slice 0 162⟩ : UserEntity)) hplain
    exact setNames_eq_self.mp huser
  · rintro ⟨rfl, hsame⟩
    have huser : named = d.user := setNames_eq_self.mpr hsame
    let plain : ResidentKey := { d.setUser named with rkNonce := r.rkNonce }
    have hcrypt : plain.xcrypt P.prims k = r := by
      have hrp : ctapXcryptBuf P.prims k r.rkNonce plain.userRp = r.userRp := by
        show ctapXcryptBuf P.prims k r.rkNonce (d.setUser named).userRp = r.userRp
        rw [huser, setUser_user]
        exact hundo _ _
      show ({ r with userRp := ctapXcryptBuf P.prims k r.rkNonce plain.userRp } : ResidentKey) = r
      rw [hrp]
    have htag : ctapComputeMac P.prims k r.macInput = r.rkTag := by
      simpa [ctapVerifyMac] using hr.rkTag
    have hrecord : updatedRecord P k d user r.rkNonce = { plain.xcrypt P.prims k with
        rkTag := ctapComputeMac P.prims k (plain.xcrypt P.prims k).macInput } := rfl
    rw [hrecord, hcrypt, htag]

end Update

/-! ## What the two sub-commands do to the files -/

section Commands

variable {P : Platform} {w : World} {params : SubCommandParams}

theorem final_bind_of_ok {α β : Type} {m : CtapM α} {k : α → CtapM β} {a : α} {w₁ : World}
    (h : m w = .ok a w₁) : final (m >>= k) w = final (k a) w₁ := by
  unfold final
  rw [bind_of_ok h]

theorem final_failIf_pos {α : Type} {c : Prop} [Decidable c] {e : CtapError} {k : Unit → CtapM α} (h : c) :
    final (failIf c e >>= k) w = w := final_of_error (failIf_bind_of h)

theorem final_failIf_neg {α : Type} {c : Prop} [Decidable c] {e : CtapError} {k : Unit → CtapM α}
    (h : ¬ c) : final (failIf c e >>= k) w = final (k ()) w := by
  unfold final
  rw [failIf_bind_of_not h]

/-- deleteCredential without a match. -/
theorem deleteCredential_keeps (h : params.credentialIdPresent = true →
    deleteFirst params.credentialDescriptor.id
      (w.rkFiles (rkFile params.credentialDescriptor.id.rpIdLookup)) = none) :
    (final (deleteCredential P params) w).rkFiles = w.rkFiles := by
  unfold deleteCredential
  by_cases hp : params.credentialIdPresent = true
  · have hdel : ctapDeleteRk P params.credentialDescriptor.id w = .ok false w := by
      unfold ctapDeleteRk
      rw [get_bind, h hp]
      rfl
    rw [final_failIf_neg (not_not.mpr hp), final_bind_of_ok hdel]
    rfl
  · rw [final_failIf_pos hp]

/-- deleteCredential with a match. -/
theorem deleteCredential_deletes (hp : params.credentialIdPresent = true) {l : List ResidentKey}
    (h : deleteFirst params.credentialDescriptor.id
      (w.rkFiles (rkFile params.credentialDescriptor.id.rpIdLookup)) = some l) :
    (final (deleteCredential P params) w).rkFiles
      = Function.update w.rkFiles (rkFile params.credentialDescriptor.id.rpIdLookup) l := by
  let n := rkFile params.credentialDescriptor.id.rpIdLookup
  let w₁ := w.putRkFile n l (.deleted (recordToDelete params.credentialDescriptor.id (w.rkFiles n)))
  have hdel : ∃ w₂, ctapDeleteRk P params.credentialDescriptor.id w = .ok true w₂ ∧
      w₂.rkFiles = w₁.rkFiles := by
    unfold ctapDeleteRk
    rw [get_bind, h]
    refine ⟨_, bind_eq_ok.mpr ⟨(), w₁, rfl, bind_eq_ok.mpr ⟨(), _, authenticatorWriteState_eq _, rfl⟩⟩, ?_⟩
    rfl
  obtain ⟨w₂, hdel, hfiles⟩ := hdel
  unfold deleteCredential
  rw [final_failIf_neg (not_not.mpr hp), final_bind_of_ok hdel]
  exact hfiles

/-- The user ID of the request as far as that of the record goes. -/
def UserEntity.SameId (u v : UserEntity) : Prop :=
  v.id.toList.take v.idSize.toNat = u.id.toList.take v.idSize.toNat

variable (hlen : (w.rkFiles (rkFile params.credentialDescriptor.id.rpIdLookup)).length ≤ 200)

include hlen

/-- The search behind `clear_state`. -/
theorem findCredential_first : ∃ cm, findCredential P params.credentialDescriptor.id
    ((w.rkFiles (rkFile params.credentialDescriptor.id.rpIdLookup)).length + 1) { w with cm := {} }
      = match (w.rkFiles (rkFile params.credentialDescriptor.id.rpIdLookup)).find?
          params.credentialDescriptor.id.names with
        | some r => .ok (r.xcrypt P.prims w.keys) { w with cm := cm }
        | none => .error (.status .noCredentials) { w with cm := cm } :=
  findCredential_eq (w := { w with cm := {} }) rfl hlen (by show _ < 0 + _; omega) (by omega)

/-- updateUserInformation that does not get to writing. -/
theorem updateUserInformation_keeps
    (h : params.credentialIdPresent = true → params.credentialUserPresent = true → ∀ rk,
      (w.rkFiles (rkFile params.credentialDescriptor.id.rpIdLookup)).find?
        params.credentialDescriptor.id.names = some rk →
      ¬ params.credentialDescriptor.user.SameId (rk.xcrypt P.prims w.keys).user) :
    ∃ e w', updateUserInformation P params w = .error (.status e) w' ∧ w'.rkFiles = w.rkFiles ∧
      w'.state = w.state ∧ w'.rkChanges = w.rkChanges := by
  unfold updateUserInformation
  by_cases hp : ¬ params.credentialIdPresent = true ∨ ¬ params.credentialUserPresent = true
  · exact ⟨.missingParameter, w, failIf_bind_of hp, rfl, rfl, rfl⟩
  rw [failIf_bind_of_not hp]
  rw [not_or, not_not, not_not] at hp
  unfold updateCredentialUserInfo
  rw [bind_of_ok (show clearState w = .ok () { w with cm := {} } from rfl), bind_of_ok run_get]
  obtain ⟨cm, hfind⟩ := findCredential_first (P := P) hlen
  cases hrec : (w.rkFiles (rkFile params.credentialDescriptor.id.rpIdLookup)).find?
      params.credentialDescriptor.id.names with
  | none =>
    rw [hrec] at hfind
    exact ⟨.noCredentials, { w with cm := cm }, bind_eq_error.mpr (.inl hfind), rfl, rfl, rfl⟩
  | some r =>
    rw [hrec] at hfind
    have hdiff : (r.xcrypt P.prims w.keys).user.id.toList.take (r.xcrypt P.prims w.keys).user.idSize.toNat
        ≠ params.credentialDescriptor.user.id.toList.take (r.xcrypt P.prims w.keys).user.idSize.toNat :=
      h hp.1 hp.2 r hrec
    refine ⟨.invalidParameter, { w with cm := cm }, ?_, rfl, rfl, rfl⟩
    rw [bind_of_ok hfind, failIf_bind_of hdiff]

/-- updateUserInformation that writes the record it finds. -/
theorem updateUserInformation_writes (hp : params.credentialIdPresent = true)
    (hu : params.credentialUserPresent = true) {rk : ResidentKey}
    (hrk : (w.rkFiles (rkFile params.credentialDescriptor.id.rpIdLookup)).find?
      params.credentialDescriptor.id.names = some rk)
    (hsame : params.credentialDescriptor.user.SameId (rk.xcrypt P.prims w.keys).user)
    (new : ResidentKey) (hnew : updatedRecord P w.keys (rk.xcrypt P.prims w.keys)
      params.credentialDescriptor.user (streamBytes w.inputs.rng.byte w.rngPos 16) = new)
    {l : List ResidentKey} (hl : overwriteFirst new (w.rkFiles (rkFile new.id.rpIdLookup)) = some l) :
    ∃ w', updateUserInformation P params w = .ok [] w' ∧
      w'.rkFiles = Function.update w.rkFiles (rkFile new.id.rpIdLookup) l ∧ w'.state = w.state ∧
      w'.rkChanges = w.rkChanges ++ [.stored new] := by
  unfold updateUserInformation
  rw [failIf_bind_of_not (by simp [hp, hu])]
  unfold updateCredentialUserInfo
  rw [bind_of_ok (show clearState w = .ok () { w with cm := {} } from rfl), bind_of_ok run_get]
  obtain ⟨cm, hfind⟩ := findCredential_first (P := P) hlen
  rw [hrk] at hfind
  have heq : ¬ (rk.xcrypt P.prims w.keys).user.id.toList.take (rk.xcrypt P.prims w.keys).user.idSize.toNat
      ≠ params.credentialDescriptor.user.id.toList.take (rk.xcrypt P.prims w.keys).user.idSize.toNat :=
    not_not.mpr hsame
  rw [bind_of_ok hfind, failIf_bind_of_not heq]
  let w₁ : World := { w with cm := cm, rngPos := w.rngPos + 16 }
  let w₂ : World := w₁.putRkFile (rkFile new.id.rpIdLookup) l (.stored new)
  have hrng : ctapGenerateRng 16 { w with cm := cm }
      = .ok (streamBytes w.inputs.rng.byte w.rngPos 16) w₁ := rfl
  have hover : ctapOverwriteRk P new w₁ = .ok () w₂ := by
    unfold ctapOverwriteRk
    rw [get_bind]
    rw [show overwriteFirst new (w₁.rkFiles (rkFile new.id.rpIdLookup)) = some l from hl]
    rfl
  refine ⟨{ w₂ with cm := {} }, ?_, rfl, rfl, rkChanges_putRkFile w₁ _ _ _⟩
  rw [bind_of_ok hrng]
  show (ctapOverwriteRk P (updatedRecord P w.keys (rk.xcrypt P.prims w.keys)
    params.credentialDescriptor.user (streamBytes w.inputs.rng.byte w.rngPos 16)) >>= fun _ => _) w₁ = _
  rw [hnew, bind_of_ok hover]
  rfl

end Commands

/-! ## Accepted requests -/

/-- A credentialManagement request that `verify_pin_auth_for_credential_management` accepts by checking
a pinUvAuthParam. -/
structure Served.Accepted (P : Platform) (r : Served) (CM : CredMgmt) : Prop where
  command : commandOf r.cmd = .credentialManagement
  unlocked : clientPinIsLocked r.before = false
  bootUnlocked : clientPinIsBootLocked r.before = false
  parsed : parseCredentialManagementRequest r.request = .ok CM
  checked : CM.subCommand ≠ 3 ∧ CM.subCommand ≠ 5
  verified : ∃ w₁, verifyPinAuthForCredentialManagement P CM (r.before.withInputs r.after.inputs)
    = .ok () w₁

/-- It shows a token with the permissions RP ID `R`. -/
structure Served.BoundTo (P : Platform) (r : Served) (CM : CredMgmt) (R : List UInt8) : Prop
    extends r.Accepted P CM where
  present : (r.before.token (slotOf CM.pinProtocol)).state.permissionsRpIdPresent = true
  rpId : (r.before.token (slotOf CM.pinProtocol)).state.permissionsRpIdHash = P.prims.sha256 R

/-- The lookup MAC of an RP ID before a request. -/
def Served.lookup (P : Platform) (r : Served) (R : List UInt8) : Bytes 16 :=
  rpIdLookupOf P.prims r.before.keys (P.prims.sha256 R)

section Accepted

variable {P : Platform} {CM : CredMgmt} {w w' : World}

theorem rngPos_verifyAuthEx {n : Nat} {param : Bytes 32} {buf : List UInt8} {proto : UInt8} :
    Preserves (fun w => w.rngPos = n) (clientPinVerifyAuthEx P param buf proto) := by
  have hclear {slot : Slot} : Preserves (fun w => w.rngPos = n) (clientPinClearUserPresent slot) :=
    preserves_modify fun w h => by split <;> exact h
  have hmod {slot : Slot} {f : TokenState → TokenState} :
      Preserves (fun w => w.rngPos = n) (modify fun w => w.modifyTokenState slot f : CtapM Unit) :=
    preserves_modify fun _ h => h
  have hemit {e : Event} : Preserves (fun w => w.rngPos = n) (emit e) := preserves_modify fun _ h => h
  refine Preserves.bind (preserves_get.bind fun _ => preserves_ite (fun _ => ?_) fun _ => hemit) fun _ =>
    preserves_get.bind fun _ => preserves_failIf.bind fun _ => preserves_get.bind fun _ =>
    preserves_failIf.bind fun _ => hemit
  exact Preserves.bind (preserves_modifyGet fun _ h => h) fun _ => hemit.bind fun _ =>
    preserves_get.bind fun _ => (preserves_onlyIf hmod).bind fun _ => preserves_get.bind fun _ =>
    (preserves_onlyIf hclear).bind fun _ => preserves_get.bind fun _ =>
    preserves_ite (fun _ => hmod) fun _ => hmod

/-- The accepting runs of `verify_pin_auth_for_credential_management`. -/
theorem verifyPinAuth_ok (hsub : CM.subCommand ≠ 3 ∧ CM.subCommand ≠ 5)
    (h : verifyPinAuthForCredentialManagement P CM w = .ok () w') :
    w'.rngPos = w.rngPos ∧
      (w.token (slotOf CM.pinProtocol)).Allows P CM.demand ∧
      ((w.token (slotOf CM.pinProtocol)).state.permissionsRpIdPresent = true → CM.subCommand ≠ 2 ∧
        (w.token (slotOf CM.pinProtocol)).state.permissionsRpIdHash = CM.params.rpIdHash) := by
  unfold verifyPinAuthForCredentialManagement at h
  rw [if_neg (by simp [hsub.1, hsub.2]), failIf_bind_eq_ok, failIf_bind_eq_ok, bind_eq_ok] at h
  obtain ⟨-, -, ⟨⟩, w₁, hex, h⟩ := h
  obtain ⟨hu, hv, -, hweak⟩ := clientPinVerifyAuthEx_ok hex
  have hwithin := hweak _ hu
  rw [get_bind, failIf_bind_eq_ok] at h
  obtain ⟨hperm, h⟩ := h
  have hallows : (w₁.token (slotOf CM.pinProtocol)).Allows P CM.demand :=
    ⟨hu, hv, verifyPermissions_iff.mp (not_not.mp hperm), fun _ h => by cases h⟩
  refine ⟨?_, hallows.of_within hwithin, fun hpresent => ?_⟩
  · have hpos : w₁.rngPos = w.rngPos := rngPos_verifyAuthEx.ok rfl hex
    rcases ite_eq_ok.mp h with ⟨-, h⟩ | ⟨-, h⟩
    · rw [get_bind, failIf_eq_ok] at h
      rw [h.2, hpos]
    · rw [get_bind, failIf_eq_ok] at h
      rw [h.2, hpos]
  · rcases ite_eq_ok.mp h with ⟨-, h⟩ | ⟨hne, h⟩
    · rw [get_bind, failIf_eq_ok, hwithin.rpId] at h
      exact absurd hpresent h.1
    · rw [get_bind, failIf_eq_ok] at h
      have hrp := verifyPermissionsRpId_iff.mp (not_not.mp h.1)
      rw [hwithin.rpId, hwithin.rpIdHash] at hrp
      exact ⟨hne, hrp hpresent⟩

/-- The run of an accepted request: its sub-command, behind a check of the token. -/
theorem Served.Accepted.command_run {r : Served} (ha : r.Accepted P CM) (hv : r.Valid P) :
    ∃ w₁ w₂, verifyPinAuthForCredentialManagement P CM (r.before.withInputs r.after.inputs) = .ok () w₁ ∧
      r.after = { w₂ with ga := { w₂.ga with lastcmd := nextLastcmd r.cmd r.status } } ∧
      ((r.status = .ok ∧ credMgmtCommand P CM w₁ = .ok r.response w₂) ∨
        ∃ e, r.status = .error e ∧ credMgmtCommand P CM w₁ = .error (.status e) w₂) := by
  obtain ⟨w₁, hver⟩ := ha.verified
  set start := r.before.withInputs r.after.inputs with hstart
  have hdisp : dispatch P (commandOf r.cmd) r.request start = credMgmtCommand P CM w₁ := by
    have hlock : ¬ (Command.checksLock .credentialManagement = true ∧ clientPinIsLocked start = true) :=
      fun h => absurd h.2 (by rw [show clientPinIsLocked start = false from ha.unlocked]; decide)
    have hboot : ¬ (Command.checksLock .credentialManagement = true ∧ clientPinIsBootLocked start = true) :=
      fun h => absurd h.2 (by rw [show clientPinIsBootLocked start = false from ha.bootUnlocked]; decide)
    unfold dispatch
    rw [ha.command, get_bind, failIf_bind_of_not hlock, get_bind, failIf_bind_of_not hboot]
    show ctapCredentialManagement P r.request start = _
    unfold ctapCredentialManagement
    rw [bind_of_ok (ctapCheck_eq_ok.mpr ⟨ha.parsed, rfl⟩), bind_of_ok hver]
  obtain ⟨w₂, hafter, hd⟩ := hv.run
  rw [← hstart, hdisp] at hd
  exact ⟨w₁, w₂, hver, hafter, hd⟩

/-- The check of the token keeps all but the inputs and the tokens. -/
theorem verifyPinAuth_keeps {inputs : Inputs}
    (h : verifyPinAuthForCredentialManagement P CM (w.withInputs inputs) = .ok () w') :
    w'.rkFiles = w.rkFiles ∧ w'.keys = w.keys ∧ w'.cm = w.cm ∧ w'.inputs = inputs ∧ w'.pinState = w.pinState ∧
      w'.pinBootAttemptsLeft = w.pinBootAttemptsLeft := by
  have htouch : Touches [.inputs, .token, .verified, .usage] (verifyPinAuthForCredentialManagement P CM) :=
    touches_verifyPinAuthForCredentialManagement
  have hfixed : w'.fixed = (w.withInputs inputs).fixed := (htouch .fixed (by decide)).ok h
  have hfiles : w'.rkFiles = (w.withInputs inputs).rkFiles := (htouch .rkFiles (by decide)).ok h
  have hkeys : w'.keys = (w.withInputs inputs).keys := (htouch .keys (by decide)).ok h
  have hcm : w'.cm = (w.withInputs inputs).cm := (htouch .cm (by decide)).ok h
  have hinputs : w'.inputs = (w.withInputs inputs).inputs :=
    congrArg (fun x : UInt32 × Option (Bytes 32 × Bytes 16) × Option (List UInt8) × Inputs => x.2.2.2) hfixed
  have hpin : w'.pinState = (w.withInputs inputs).pinState := (htouch .pinState (by decide)).ok h
  have hboot : w'.pinBootAttemptsLeft = (w.withInputs inputs).pinBootAttemptsLeft := (htouch .boot (by decide)).ok h
  exact ⟨hfiles, hkeys, hcm, hinputs, hpin, hboot⟩

/-- The run of an accepted request: its sub-command, behind a check that kept files, keys and
enumeration. -/
theorem Served.Accepted.run {r : Served} (ha : r.Accepted P CM) (hv : r.Valid P) :
    ∃ w₁, w₁.rkFiles = r.before.rkFiles ∧ w₁.keys = r.before.keys ∧ w₁.cm = r.before.cm ∧
      w₁.rngPos = 0 ∧ w₁.inputs = r.after.inputs ∧
      r.after.rkFiles = (final (credMgmtCommand P CM) w₁).rkFiles ∧
      r.after.cm = (final (credMgmtCommand P CM) w₁).cm ∧
      (r.status = .ok → ∃ w₂, credMgmtCommand P CM w₁ = .ok r.response w₂) := by
  obtain ⟨w₁, w₂, hver, hafter, hd⟩ := ha.command_run hv
  obtain ⟨hfiles, hkeys, hcm, hinputs, -, -⟩ := verifyPinAuth_keeps hver
  have hfinal : w₂ = final (credMgmtCommand P CM) w₁ := by
    rcases hd with ⟨-, hd⟩ | ⟨e, -, hd⟩
    · exact (final_of_ok hd).symm
    · exact (final_of_error hd).symm
  refine ⟨w₁, hfiles, hkeys, hcm, (verifyPinAuth_ok ha.checked hver).1, hinputs, ?_, ?_, fun hok => ?_⟩
  · rw [← hfinal, hafter]
  · rw [← hfinal, hafter]
  rcases hd with ⟨-, hd⟩ | ⟨e, herr, -⟩
  · exact ⟨w₂, hd⟩
  · rw [hok] at herr
    cases herr

/-- The request of a bound token names its RP in the rpIdHash. -/
theorem Served.BoundTo.rpIdHash {r : Served} {R : List UInt8} (hb : r.BoundTo P CM R) :
    CM.subCommand ≠ 2 ∧ CM.params.rpIdHash = P.prims.sha256 R := by
  obtain ⟨w₁, hver⟩ := hb.verified
  obtain ⟨hne, hhash⟩ := (verifyPinAuth_ok hb.checked hver).2.2 hb.present
  exact ⟨hne, hhash.symm.trans hb.rpId⟩

end Accepted

/-! ## Enumerations -/

/-- The response shows a stored record of the RP. -/
def Served.ShowsRecordOf (P : Platform) (r : Served) (R : List UInt8) : Prop :=
  ∃ rk ∈ r.before.rkFiles (rkFile (r.lookup P R)), rk.id.rpIdLookup = r.lookup P R ∧
    ∃ count w₁ w₂, cborEncodeEnumerateCredential P (rk.xcrypt P.prims r.before.keys) count w₁
      = .ok r.response w₂

/-- enumerateCredentialsGetNextCredential. -/
def Served.EnumeratesNext (r : Served) : Prop :=
  commandOf r.cmd = .credentialManagement ∧ r.status = .ok ∧
    ∃ CM, parseCredentialManagementRequest r.request = .ok CM ∧ CM.subCommand = 5

/-- An enumeration of credentials that is in progress is one of the RP with this hash. -/
def World.EnumeratesOnly (hash : Bytes 32) (w : World) : Prop :=
  w.cm.valid = true → w.cm.initCmd = 4 → w.cm.rpIdHash = hash

section Enumeration

variable {P : Platform} {w w' : World} {out : List UInt8} {params : SubCommandParams} {hash : Bytes 32}

/-- A record that `scan_rk` returned, as part of a response. -/
theorem scanNext_shown {l : Bytes 16} {rk : ResidentKey} (h : scanNext P l w = .ok (some rk) w') :
    ∃ r ∈ w.rkFiles (rkFile l), r.id.rpIdLookup = l ∧ rk = r.xcrypt P.prims w.keys := by
  obtain ⟨r, hr, hmatch, rfl⟩ := scanNext_found h
  simp only [scanMatches, Bool.and_eq_true, decide_eq_true_eq] at hmatch
  exact ⟨r, hr, hmatch.2.symm, rfl⟩

theorem enumerateCredentialsBegin_ok (h : enumerateCredentialsBegin P params w = .ok out w') :
    ∃ r ∈ w.rkFiles (rkFile (rpIdLookupOf P.prims w.keys params.rpIdHash)),
      r.id.rpIdLookup = rpIdLookupOf P.prims w.keys params.rpIdHash ∧
      ∃ count w₁ w₂, cborEncodeEnumerateCredential P (r.xcrypt P.prims w.keys) count w₁ = .ok out w₂ := by
  unfold enumerateCredentialsBegin at h
  rw [bind_eq_ok] at h
  obtain ⟨⟨⟩, w₁, hinit, h⟩ := h
  have hfiles₁ : w₁.rkFiles = w.rkFiles := (touches_initState .rkFiles (by decide)).ok hinit
  have hkeys₁ : w₁.keys = w.keys := (touches_initState .keys (by decide)).ok hinit
  rw [failIf_bind_eq_ok, bind_eq_ok] at h
  obtain ⟨-, ⟨⟩, w₂, hmod, h⟩ := h
  rw [modify_eq_ok] at hmod
  rw [get_bind, bind_eq_ok] at h
  obtain ⟨count, w₃, hcount, h⟩ := h
  have hfiles₂ : w₂.rkFiles = w.rkFiles := by rw [← hfiles₁, hmod]
  have hfiles₃ : w₃.rkFiles = w.rkFiles :=
    ((touches_scanCount .rkFiles (by decide)).ok hcount).trans hfiles₂
  have hkeys₂ : w₂.keys = w.keys := by rw [← hkeys₁, hmod]
  have hkeys₃ : w₃.keys = w.keys := ((touches_scanCount .keys (by decide)).ok hcount).trans hkeys₂
  rw [bind_eq_ok] at h
  obtain ⟨⟨⟩, w₄, hzero, h⟩ := h
  rcases onlyIf_eq_ok.mp hzero with ⟨-, hend⟩ | ⟨-, rfl⟩
  · simp [endEnumeration, bind_eq_ok] at hend
  rw [bind_eq_ok] at h
  obtain ⟨found, w₅, hscan, h⟩ := h
  cases found with
  | none => simp [endEnumeration, bind_eq_ok] at h
  | some rk =>
    obtain ⟨r, hr, hlookup, rfl⟩ := scanNext_shown hscan
    rw [hkeys₂] at hr hlookup
    rw [hfiles₃] at hr
    rw [hkeys₃] at h
    exact ⟨r, hr, hlookup, count, w₅, w', h⟩

/-- A successful `check_state` keeps the enumeration. -/
theorem checkState_ok {cmd : UInt8} (h : checkState cmd w = .ok true w') :
    w.cm.valid = true ∧ w.cm.initCmd = cmd ∧ w'.cm.rpIdHash = w.cm.rpIdHash := by
  unfold checkState at h
  rw [get_bind] at h
  rcases ite_eq_ok.mp h with ⟨-, h⟩ | ⟨hvalid, h⟩
  · simp at h
  rcases ite_eq_ok.mp h with ⟨-, h⟩ | ⟨hcmd, h⟩
  · obtain ⟨_, _, _, h⟩ := bind_eq_ok.mp h
    simp at h
  rw [bind_eq_ok] at h
  obtain ⟨now, w₁, -, h⟩ := h
  rcases ite_eq_ok.mp h with ⟨-, h⟩ | ⟨-, h⟩
  · obtain ⟨_, _, _, h⟩ := bind_eq_ok.mp h
    simp at h
  rw [bind_eq_ok] at h
  obtain ⟨⟨⟩, w₂, hset, h⟩ := h
  obtain ⟨-, rfl⟩ := pure_eq_ok.mp h
  have hw : w' = _ := modify_eq_ok.mp hset
  refine ⟨by simpa using hvalid, not_not.mp hcmd, ?_⟩
  rw [hw]

theorem enumerateCredentialsGetNextCredential_ok
    (h : enumerateCredentialsGetNextCredential P w = .ok out w') :
    w.cm.valid = true ∧ w.cm.initCmd = 4 ∧
    ∃ r ∈ w.rkFiles (rkFile (rpIdLookupOf P.prims w.keys w.cm.rpIdHash)),
      r.id.rpIdLookup = rpIdLookupOf P.prims w.keys w.cm.rpIdHash ∧
      ∃ count w₁ w₂, cborEncodeEnumerateCredential P (r.xcrypt P.prims w.keys) count w₁ = .ok out w₂ := by
  unfold enumerateCredentialsGetNextCredential at h
  rw [bind_eq_ok] at h
  obtain ⟨valid, w₁, hcheck, h⟩ := h
  rw [failIf_bind_eq_ok, get_bind] at h
  obtain ⟨hvalid, h⟩ := h
  obtain rfl : valid = true := by simpa using hvalid
  obtain ⟨hv, hcmd, hhash⟩ := checkState_ok hcheck
  have hfiles : w₁.rkFiles = w.rkFiles := (touches_checkState .rkFiles (by decide)).ok hcheck
  have hkeys : w₁.keys = w.keys := (touches_checkState .keys (by decide)).ok hcheck
  rw [bind_eq_ok] at h
  obtain ⟨found, w₂, hscan, h⟩ := h
  cases found with
  | none => simp [endEnumeration, bind_eq_ok] at h
  | some rk =>
    obtain ⟨r, hr, hlookup, rfl⟩ := scanNext_shown hscan
    rw [hfiles, hkeys, hhash] at hr
    rw [hkeys, hhash] at hlookup
    rw [hkeys] at h
    exact ⟨hv, hcmd, r, hr, hlookup, 0, w₂, w', h⟩

/-! ### The RP of an enumeration -/

theorem ignores_enumeratesOnly :
    Ignores [.stateFile, .journal, .counter, .rkFiles, .rkChanges, .pinState, .rkStored, .identity, .keys, .token, .boot, .ga,
      .upDisabled, .inputs, .pinChecks, .issued, .verified, .usage, .hmacOutputs, .signatures, .assertionEvents, .fixed]
      (World.EnumeratesOnly hash) := by
  intro w w' h hw
  have hcm : w'.cm = w.cm := h .cm (by decide)
  unfold World.EnumeratesOnly
  rw [hcm]
  exact hw

/-- A new enumeration state for the same RP. -/
theorem enumeratesOnly_setCm {cm : CredMgmtState}
    (h : cm.valid = true → cm.initCmd = 4 → cm.rpIdHash = hash) (w : World) :
    World.EnumeratesOnly hash (final (setCm cm) w) := h

theorem enumeratesOnly_clearState : Preserves (World.EnumeratesOnly hash) clearState :=
  fun w _ => enumeratesOnly_setCm (by simp) w

theorem enumeratesOnly_endEnumeration {α : Type} {s : CtapError} :
    Preserves (World.EnumeratesOnly hash) (endEnumeration s : CtapM α) :=
  enumeratesOnly_clearState.bind fun _ => preserves_throw

theorem enumeratesOnly_scanCount {l : Bytes 16} :
    Preserves (World.EnumeratesOnly hash) (scanCount l) := fun _ h => h

theorem enumeratesOnly_scanNext {l : Bytes 16} :
    Preserves (World.EnumeratesOnly hash) (scanNext P l) := by
  refine preserves_of_ends fun w hw => ?_
  unfold scanNext
  rw [ends_bind, ends_get]
  dsimp only
  split <;> exact hw

theorem enumeratesOnly_checkState {cmd : UInt8} :
    Preserves (World.EnumeratesOnly hash) (checkState cmd) := by
  refine preserves_of_ends fun w hw => ?_
  unfold checkState
  rw [ends_bind, ends_get]
  dsimp only
  rw [ends_ite, ends_ite]
  refine ⟨fun _ => hw, fun _ => ⟨fun _ => ?_, fun _ => ?_⟩⟩
  · exact (enumeratesOnly_clearState.bind fun _ => preserves_pure).ends hw
  · rw [ends_bind]
    refine ends_of_ok rfl ?_
    rw [ends_ite]
    refine ⟨fun _ => ?_, fun _ => hw⟩
    exact (enumeratesOnly_clearState.bind fun _ => preserves_pure).ends hw

theorem nextFileWithRps_keeps {fuel : Nat} {cm : CredMgmtState} :
    (nextFileWithRps w fuel cm).valid = cm.valid ∧ (nextFileWithRps w fuel cm).initCmd = cm.initCmd ∧
      (nextFileWithRps w fuel cm).rpIdHash = cm.rpIdHash := by
  induction fuel generalizing cm with
  | zero => exact ⟨rfl, rfl, rfl⟩
  | succ fuel ih =>
    unfold nextFileWithRps
    split
    · dsimp only
      split
      · exact ih
      · exact ⟨rfl, rfl, rfl⟩
    · exact ⟨rfl, rfl, rfl⟩

theorem enumeratesOnly_getNextUniqueRp :
    Preserves (World.EnumeratesOnly hash) (getNextUniqueRp P) := by
  refine preserves_of_ends fun w hw => ?_
  unfold getNextUniqueRp
  rw [ends_bind, ends_get]
  dsimp only
  set cm := if w.cm.lenListUniqueRps ≤ w.cm.rkIdx then _ else w.cm with hcm
  have hkeep : cm.valid = w.cm.valid ∧ cm.initCmd = w.cm.initCmd ∧ cm.rpIdHash = w.cm.rpIdHash := by
    rw [hcm]
    split
    · exact nextFileWithRps_keeps
    · exact ⟨rfl, rfl, rfl⟩
  have hcm' : cm.valid = true → cm.initCmd = 4 → cm.rpIdHash = hash := by
    rw [hkeep.1, hkeep.2.1, hkeep.2.2]
    exact hw
  rw [ends_bind]
  refine ends_of_ok rfl ?_
  rw [ends_ite, ends_ite]
  exact ⟨fun _ => hcm', fun _ => ⟨fun _ => hcm', fun _ => hcm'⟩⟩

/-- Every sub-command but enumerateCredentialsBegin keeps the RP of an enumeration. -/
theorem enumeratesOnly_credMgmtCommand {CM : CredMgmt} (hsub : CM.subCommand ≠ 4) :
    Preserves (World.EnumeratesOnly hash) (credMgmtCommand P CM) := by
  have hfree {α : Type} {m : CtapM α} {S : List Part} (hm : Touches S m)
      (hS : S ⊆ [.stateFile, .journal, .counter, .rkFiles, .rkChanges, .pinState, .rkStored, .identity, .keys, .token, .boot, .ga,
        .upDisabled, .inputs, .pinChecks, .issued, .verified, .usage, .hmacOutputs, .signatures, .assertionEvents, .fixed]) :
      Preserves (World.EnumeratesOnly hash) m := ignores_enumeratesOnly.preserves hm hS
  have hnextRp {k : Option ResidentKey → CtapM (List UInt8)} (hnone : k none = endEnumeration .notAllowed)
      {n : Nat} (hsome : ∀ rk, k (some rk) = cborEncodeEnumerateRp rk n) :
      Preserves (World.EnumeratesOnly hash) (getNextUniqueRp P >>= k) := by
    refine enumeratesOnly_getNextUniqueRp.bind fun found => ?_
    cases found with
    | none => exact hnone ▸ enumeratesOnly_endEnumeration
    | some rk => exact hsome rk ▸ hfree touches_cborEncodeEnumerateRp (by decide)
  unfold credMgmtCommand
  split
  · exact hfree touches_cborEncodeCredentialMetadata (by decide)
  · refine Preserves.bind (fun w _ => enumeratesOnly_setCm (by simp) _) fun _ => ?_
    refine Preserves.bind (preserves_of_ends fun w hw => ?_) fun count =>
      (preserves_onlyIf enumeratesOnly_endEnumeration).bind fun _ => hnextRp rfl fun _ => rfl
    unfold getCountUniqueRelyingParties
    rw [ends_bind, ends_get]
    dsimp only
    split <;> exact hw
  · exact enumeratesOnly_checkState.bind fun _ => preserves_failIf.bind fun _ => hnextRp rfl fun _ => rfl
  · rename_i h₄
    exact absurd (UInt8.toNat_inj.mp h₄) hsub
  · refine enumeratesOnly_checkState.bind fun _ => preserves_failIf.bind fun _ => preserves_get.bind fun _ =>
      enumeratesOnly_scanNext.bind fun found => ?_
    cases found with
    | none => exact enumeratesOnly_endEnumeration
    | some rk => exact hfree touches_cborEncodeEnumerateCredential (by decide)
  · exact hfree touches_deleteCredential (by decide)
  · have hfind {id : CredentialId} {fuel : Nat} :
        Preserves (World.EnumeratesOnly hash) (findCredential P id fuel) := by
      induction fuel with
      | zero => exact preserves_throw
      | succ fuel ih =>
        refine enumeratesOnly_scanNext.bind fun found => ?_
        cases found with
        | none => exact preserves_throw
        | some rk => exact preserves_ite (fun _ => preserves_pure) fun _ => ih
    exact preserves_failIf.bind fun _ => enumeratesOnly_clearState.bind fun _ => preserves_get.bind fun _ =>
      hfind.bind fun _ => preserves_failIf.bind fun _ =>
      (hfree touches_ctapGenerateRng (by decide)).bind fun _ =>
      (hfree touches_ctapOverwriteRk (by decide)).bind fun _ =>
      enumeratesOnly_clearState.bind fun _ => preserves_pure
  · exact preserves_throw

/-- enumerateCredentialsBegin sets it. -/
theorem enumerateCredentialsBegin_enumerates (hpresent : params.rpIdHashPresent = false →
    params.rpIdHash = Bytes.zero 32) (w : World) :
    World.EnumeratesOnly params.rpIdHash (final (enumerateCredentialsBegin P params) w) := by
  have hends : Ends (enumerateCredentialsBegin P params) w
      (fun _ => World.EnumeratesOnly params.rpIdHash) fun _ => World.EnumeratesOnly params.rpIdHash := by
    unfold enumerateCredentialsBegin
    rw [ends_bind]
    refine ends_of_ok rfl ?_
    rw [ends_bind, ends_failIf]
    refine ⟨fun habsent _ _ => (hpresent (by simpa using habsent)).symm, fun _ => ?_⟩
    rw [ends_bind, ends_modify]
    refine Preserves.ends (I := World.EnumeratesOnly params.rpIdHash) ?_ fun _ _ => rfl
    refine preserves_get.bind fun _ => enumeratesOnly_scanCount.bind fun _ =>
      (preserves_onlyIf enumeratesOnly_endEnumeration).bind fun _ =>
      enumeratesOnly_scanNext.bind fun found => ?_
    cases found with
    | none => exact enumeratesOnly_endEnumeration
    | some rk =>
      exact ignores_enumeratesOnly.preserves touches_cborEncodeEnumerateCredential (by decide)
  exact hends.final

end Enumeration

/-! ### Absent hashes -/

section Parse

/-- An rpIdHash that is absent was not written. -/
def SubCommandParams.Absent (p : SubCommandParams) : Prop :=
  p.rpIdHashPresent = false → p.rpIdHash = Bytes.zero 32

theorem subCommandParam_absent {s s' : SubCommandParams × Nat} {key : Int} {it : CborValue}
    (h : subCommandParam s key it = .ok s') (hs : s.1.Absent) : s'.1.Absent := by
  unfold subCommandParam at h
  split at h
  · dsimp only at h
    split at h
    · simp at h
    · obtain h := cborCheck_eq_ok.mp h
      cases h
    · obtain rfl := except_pure_eq_ok.mp h
      intro habsent
      cases habsent
  split at h
  · obtain ⟨cred, -, h⟩ := except_bind_eq_ok.mp h
    obtain rfl := except_pure_eq_ok.mp h
    exact hs
  split at h
  · obtain ⟨user, -, h⟩ := except_bind_eq_ok.mp h
    obtain rfl := except_pure_eq_ok.mp h
    exact hs
  · obtain rfl := except_pure_eq_ok.mp h
    exact hs

theorem parseSubCommandParams_absent {CM CM' : CredMgmt} {val : CborValue}
    (h : parseSubCommandParams CM val = .ok CM') (hs : CM.params.Absent) : CM'.params.Absent := by
  unfold parseSubCommandParams at h
  obtain ⟨⟨map, len⟩, -, h⟩ := except_bind_eq_ok.mp h
  obtain ⟨⟨⟨params, sz⟩, last⟩, hmembers, h⟩ := except_bind_eq_ok.mp h
  obtain ⟨-, -, h⟩ := except_bind_eq_ok.mp h
  obtain rfl := except_pure_eq_ok.mp h
  exact intMembers_keeps (Q := fun s : SubCommandParams × Nat => s.1.Absent)
    (fun _ _ _ _ => subCommandParam_absent) hmembers hs

theorem parseCredentialManagementRequest_absent {request : List UInt8} {CM : CredMgmt}
    (h : parseCredentialManagementRequest request = .ok CM) : CM.params.Absent := by
  unfold parseCredentialManagementRequest at h
  obtain ⟨it, -, h⟩ := except_bind_eq_ok.mp h
  obtain ⟨⟨map, len⟩, -, h⟩ := except_bind_eq_ok.mp h
  obtain ⟨⟨CM', last⟩, hmembers, h⟩ := except_bind_eq_ok.mp h
  obtain rfl := except_pure_eq_ok.mp h
  refine intMembers_keeps (Q := fun CM : CredMgmt => CM.params.Absent) ?_ hmembers fun _ => rfl
  intro CM key it CM' hm hs
  unfold credMgmtMember at hm
  split at hm
  · obtain ⟨v, -, hm⟩ := except_bind_eq_ok.mp hm
    obtain rfl := except_pure_eq_ok.mp hm
    exact hs
  split at hm
  · exact parseSubCommandParams_absent hm hs
  split at hm
  · obtain ⟨v, -, hm⟩ := except_bind_eq_ok.mp hm
    obtain rfl := except_pure_eq_ok.mp hm
    exact hs
  split at hm
  · obtain ⟨v, -, hm⟩ := except_bind_eq_ok.mp hm
    obtain rfl := except_pure_eq_ok.mp hm
    exact hs
  · obtain rfl := except_pure_eq_ok.mp hm
    exact hs

end Parse

/-! ### Enumerations over runs -/

section Runs

variable {P : Platform} {hash : Bytes 32}

/-- The other commands do not touch the enumeration state. -/
theorem enumeratesOnly_dispatch {c : Command} {request : List UInt8} (hc : c ≠ .credentialManagement) :
    Preserves (World.EnumeratesOnly hash) (dispatch P c request) := by
  have hfree {α : Type} {m : CtapM α} {S : List Part} (hm : Touches S m)
      (hS : S ⊆ [.stateFile, .journal, .counter, .rkFiles, .rkChanges, .pinState, .rkStored, .identity, .keys, .token, .boot, .ga,
        .upDisabled, .inputs, .pinChecks, .issued, .verified, .usage, .hmacOutputs, .signatures, .assertionEvents, .fixed]) :
      Preserves (World.EnumeratesOnly hash) m := ignores_enumeratesOnly.preserves hm hS
  refine preserves_get.bind fun _ => preserves_failIf.bind fun _ => preserves_get.bind fun _ =>
    preserves_failIf.bind fun _ => ?_
  cases c with
  | makeCredential => exact hfree touches_ctapMakeCredential (by decide)
  | getAssertion => exact hfree touches_ctapGetAssertion (by decide)
  | getInfo => exact hfree touches_ctapGetInfo (by decide)
  | clientPin => exact hfree touches_ctapClientPin (by decide)
  | reset => exact hfree touches_ctapReset (by decide)
  | getNextAssertion =>
    exact preserves_get.bind fun _ => preserves_failIf.bind fun _ =>
      hfree touches_ctapGetNextAssertion (by decide)
  | credentialManagement => exact absurd rfl hc
  | selection => exact hfree touches_ctapSelection (by decide)
  | invalid => exact preserves_throw

/-- A request that does not begin an enumeration of credentials keeps the RP of the one in progress. -/
theorem Served.Valid.enumeratesOnly {r : Served} (hv : r.Valid P)
    (hno : ∀ CM, r.Accepted P CM → CM.subCommand ≠ 4) (hb : r.before.EnumeratesOnly hash) :
    r.after.EnumeratesOnly hash := by
  obtain ⟨w₁, hafter, hd⟩ := hv.run
  set start := r.before.withInputs r.after.inputs with hstart
  have hw : start.EnumeratesOnly hash := hb
  have hends : Ends (dispatch P (commandOf r.cmd) r.request) start (fun _ => World.EnumeratesOnly hash)
      fun _ => World.EnumeratesOnly hash := by
    by_cases hc : commandOf r.cmd = .credentialManagement
    · rw [hc]
      unfold dispatch
      rw [ends_bind, ends_get, ends_bind, ends_failIf]
      refine ⟨fun _ => hw, fun hlock => ?_⟩
      rw [ends_bind, ends_get, ends_bind, ends_failIf]
      refine ⟨fun _ => hw, fun hboot => ?_⟩
      show Ends (ctapCredentialManagement P r.request) start _ _
      unfold ctapCredentialManagement
      rw [ends_bind, ends_ctapCheck]
      refine ⟨fun CM hparse => ?_, fun _ _ => hw⟩
      rw [ends_bind]
      have hver : Preserves (World.EnumeratesOnly hash) (verifyPinAuthForCredentialManagement P CM) :=
        ignores_enumeratesOnly.preserves touches_verifyPinAuthForCredentialManagement (by decide)
      refine ends_of_runs (fun _ w₂ hok => ?_) fun _ _ herr => (hver.ends hw).error herr
      refine (enumeratesOnly_credMgmtCommand fun hsub => ?_).ends ((hver.ends hw).ok hok)
      refine hno CM ⟨hc, ?_, ?_, hparse, by rw [hsub]; decide, w₂, hok⟩ hsub
      · exact Bool.eq_false_iff.mpr fun h => hlock ⟨rfl, h⟩
      · exact Bool.eq_false_iff.mpr fun h => hboot ⟨rfl, h⟩
    · exact (enumeratesOnly_dispatch hc).ends hw
  have h₁ : w₁.EnumeratesOnly hash := by
    rcases hd with ⟨-, hd⟩ | ⟨e, -, hd⟩
    · exact hends.ok hd
    · exact hends.error hd
  rw [hafter]
  exact h₁

/-- An enumeration stays with its RP until another one begins. -/
theorem Run.enumeratesOnly {h₁ h₂ : List Entry} {w : World} {r : Served}
    (hr : Run P (h₁ ++ .request r :: h₂) w)
    (hno : ∀ r', .request r' ∈ h₁ → ∀ CM, r'.Accepted P CM → CM.subCommand ≠ 4)
    (hs : r.after.EnumeratesOnly hash) : w.EnumeratesOnly hash := by
  induction h₁ generalizing w with
  | nil =>
    obtain ⟨-, -, rfl⟩ := hr.of_request
    exact hs
  | cons e h₁ ih =>
    have hno' : ∀ r', .request r' ∈ h₁ → ∀ CM, r'.Accepted P CM → CM.subCommand ≠ 4 :=
      fun r' hr' => hno r' (List.mem_cons_of_mem _ hr')
    cases e with
    | request r' =>
      obtain ⟨hrun, hv, rfl⟩ := hr.of_request
      exact hv.enumeratesOnly (hno r' (List.mem_cons_self ..)) (ih hrun hno')
    | boot w' =>
      obtain ⟨w₀, hrun, hb, rfl⟩ := hr.of_boot (by simp)
      obtain ⟨-, -, -, -, hst⟩ := hb.of_stored hrun.synced.file hrun.synced.version
      intro hvalid
      rw [hst.cm] at hvalid
      cases hvalid

end Runs

/-! ## Requests of bound tokens -/

/-- The request deletes or rewrites a record of another RP than `R`: its credential ID names one, and
for an update the user ID is that of the record and the record does not keep its bytes. -/
def Served.HitsAnother (P : Platform) (r : Served) (CM : CredMgmt) (R : List UInt8) : Prop :=
  CM.params.credentialDescriptor.id.rpIdLookup ≠ r.lookup P R ∧ CM.params.credentialIdPresent = true ∧
    ((CM.subCommand = 6 ∧ ∃ n, ∃ rk ∈ r.before.rkFiles n,
        CM.params.credentialDescriptor.id.rpIdLookup = rk.id.rpIdLookup ∧
        CM.params.credentialDescriptor.id.tag = rk.id.tag) ∨
      (CM.subCommand = 7 ∧ CM.params.credentialUserPresent = true ∧ ∃ rk,
        (r.before.rkFiles (rkFile CM.params.credentialDescriptor.id.rpIdLookup)).find?
          CM.params.credentialDescriptor.id.names = some rk ∧
        CM.params.credentialDescriptor.user.SameId (rk.xcrypt P.prims r.before.keys).user ∧
        ¬ (streamBytes r.after.inputs.rng.byte 0 16 = rk.rkNonce ∧
          CM.params.credentialDescriptor.user.SameNames (rk.xcrypt P.prims r.before.keys).user)))

/-- The request, served behind the history `h`, concerns the records of `R` only. -/
structure Served.StaysWithin (P : Platform) (h : List Entry) (r : Served) (CM : CredMgmt)
    (R : List UInt8) : Prop where
  others : ∀ n, othersThan (r.lookup P R) (r.after.rkFiles n)
    = othersThan (r.lookup P R) (r.before.rkFiles n)
  shows : CM.subCommand = 4 → r.status = .ok → r.ShowsRecordOf P R
  /-- Also what continues the enumeration, until another one begins. -/
  continues : CM.subCommand = 4 → ∀ h₁ r' w', Run P (.request r' :: (h₁ ++ .request r :: h)) w' →
    (∀ r'', .request r'' ∈ h₁ → ∀ CM', r''.Accepted P CM' → CM'.subCommand ≠ 4) →
    r'.EnumeratesNext → r'.ShowsRecordOf P R

section Bound

variable {P : Platform} {r : Served} {CM : CredMgmt} {R : List UInt8}

theorem credMgmtCommand_delete (h : CM.subCommand = 6) :
    credMgmtCommand P CM = deleteCredential P CM.params := by
  unfold credMgmtCommand
  rw [h]
  rfl

theorem credMgmtCommand_update (h : CM.subCommand = 7) :
    credMgmtCommand P CM = updateUserInformation P CM.params := by
  unfold credMgmtCommand
  rw [h]
  rfl

theorem credMgmtCommand_begin (h : CM.subCommand = 4) :
    credMgmtCommand P CM = enumerateCredentialsBegin P CM.params := by
  unfold credMgmtCommand
  rw [h]
  rfl

theorem credMgmtCommand_next (h : CM.subCommand = 5) :
    credMgmtCommand P CM = enumerateCredentialsGetNextCredential P := by
  unfold credMgmtCommand
  rw [h]
  rfl

theorem credMgmtCommand_files (h₆ : CM.subCommand ≠ 6) (h₇ : CM.subCommand ≠ 7) (w : World) :
    (final (credMgmtCommand P CM) w).rkFiles = w.rkFiles := by
  unfold credMgmtCommand
  split
  · exact touches_cborEncodeCredentialMetadata .rkFiles (by decide) w
  · exact touches_enumerateRpsBegin .rkFiles (by decide) w
  · exact touches_enumerateRpsGetNextRp .rkFiles (by decide) w
  · exact touches_enumerateCredentialsBegin .rkFiles (by decide) w
  · exact touches_enumerateCredentialsGetNextCredential .rkFiles (by decide) w
  · rename_i h
    exact absurd (UInt8.toNat_inj.mp h) h₆
  · rename_i h
    exact absurd (UInt8.toNat_inj.mp h) h₇
  · rfl

theorem length_file_le {w : World} (hw : StoreOk P w) (n : Fin 16) : (w.rkFiles n).length ≤ 200 := by
  have hle : (w.rkFiles n).length ≤ w.stored :=
    Finset.single_le_sum (f := fun n => (w.rkFiles n).length) (fun _ _ => Nat.zero_le _)
      (Finset.mem_univ n)
  exact hle.trans hw.bounded

/-- What a deletion leaves to the other RPs. -/
theorem Served.Accepted.delete_others (ha : r.Accepted P CM) (hv : r.Valid P) (hw : StoreOk P r.before)
    (hsub : CM.subCommand = 6) :
    (∀ n, othersThan (r.lookup P R) (r.after.rkFiles n) = othersThan (r.lookup P R) (r.before.rkFiles n)) ↔
      ¬ r.HitsAnother P CM R := by
  obtain ⟨w₁, hfiles, -, -, -, -, hafter, -⟩ := ha.run hv
  rw [credMgmtCommand_delete hsub] at hafter
  set id := CM.params.credentialDescriptor.id with hid
  by_cases hp : CM.params.credentialIdPresent = true
  · cases hdel : deleteFirst id (r.before.rkFiles (rkFile id.rpIdLookup)) with
    | none =>
      rw [deleteCredential_keeps (fun _ => by rw [hfiles]; exact hdel), hfiles] at hafter
      refine ⟨fun _ hits => ?_, fun _ n => by rw [hafter]⟩
      obtain ⟨-, -, ⟨-, n, rk, hrk, hlookup, htag⟩ | ⟨h₇, -⟩⟩ := hits
      · have hn : rkFile id.rpIdLookup = n := by
          rw [show id.rpIdLookup = rk.id.rpIdLookup from hlookup]
          exact hw.placed n rk hrk
        exact deleteFirst_eq_none.mp hdel rk (hn ▸ hrk) ⟨hlookup, htag⟩
      · rw [hsub] at h₇
        cases h₇
    | some l =>
      rw [deleteCredential_deletes hp (by rw [hfiles]; exact hdel), hfiles] at hafter
      rw [hafter, othersThan_update, othersThan_deleteFirst hdel]
      constructor
      · intro hL hits
        exact hits.1 hL
      · intro hits
        by_contra hL
        refine hits ⟨hL, hp, .inl ⟨hsub, ?_⟩⟩
        by_contra hnone
        have : deleteFirst id (r.before.rkFiles (rkFile id.rpIdLookup)) = none := by
          rw [deleteFirst_eq_none]
          intro rk hrk hmatch
          exact hnone ⟨_, rk, hrk, hmatch⟩
        rw [this] at hdel
        cases hdel
  · rw [deleteCredential_keeps (fun h => absurd h hp), hfiles] at hafter
    exact ⟨fun _ hits => hp hits.2.1, fun _ n => by rw [hafter]⟩

/-- What an update leaves to the other RPs. -/
theorem Served.Accepted.update_others (hC : P.prims.CtrUndoes) (ha : r.Accepted P CM) (hv : r.Valid P)
    (hw : StoreOk P r.before) (hsub : CM.subCommand = 7) :
    (∀ n, othersThan (r.lookup P R) (r.after.rkFiles n) = othersThan (r.lookup P R) (r.before.rkFiles n)) ↔
      ¬ r.HitsAnother P CM R := by
  obtain ⟨w₁, hfiles, hkeys, -, hrng, hinputs, hafter, -⟩ := ha.run hv
  rw [credMgmtCommand_update hsub] at hafter
  set id := CM.params.credentialDescriptor.id with hid
  set user := CM.params.credentialDescriptor.user with huser
  have hlen : (w₁.rkFiles (rkFile id.rpIdLookup)).length ≤ 200 := by
    rw [hfiles]
    exact length_file_le hw _
  by_cases hwrites : CM.params.credentialIdPresent = true ∧ CM.params.credentialUserPresent = true ∧
      ∃ rk, (r.before.rkFiles (rkFile id.rpIdLookup)).find? id.names = some rk ∧
        user.SameId (rk.xcrypt P.prims r.before.keys).user
  · obtain ⟨hp, hu, rk, hfind, hsame⟩ := hwrites
    have hrk : rk ∈ r.before.rkFiles (rkFile id.rpIdLookup) := List.mem_of_find?_eq_some hfind
    have hnames : id.names rk = true := List.find?_some hfind
    have hlookup : id.rpIdLookup = rk.id.rpIdLookup := by
      simp only [CredentialId.names, scanMatches, Bool.and_eq_true, decide_eq_true_eq] at hnames
      exact hnames.1.2
    have hauth := hw.authentic _ rk hrk
    set nonce := streamBytes r.after.inputs.rng.byte 0 16 with hnonce
    set new := updatedRecord P r.before.keys (rk.xcrypt P.prims r.before.keys) user nonce with hnew
    have hkey : new.key = rk.key := updatedRecord_key
    have hnewLookup : new.id.rpIdLookup = id.rpIdLookup := (congrArg Prod.fst hkey).trans hlookup.symm
    obtain ⟨pre, post, hfile⟩ := List.append_of_mem hrk
    have hl : overwriteFirst new (r.before.rkFiles (rkFile id.rpIdLookup)) = some (pre ++ new :: post) := by
      rw [hfile]
      exact overwriteFirst_append hkey (hfile ▸ hw.unique _)
    obtain ⟨w', hrun, hwrite, -⟩ := updateUserInformation_writes (P := P) hlen hp hu (by rw [hfiles]; exact hfind)
      (by rw [hkeys]; exact hsame) new (by rw [hkeys, hinputs, hrng]) (l := pre ++ new :: post)
      (by rw [hfiles, hnewLookup]; exact hl)
    rw [final_of_ok hrun, hwrite, hfiles, hnewLookup] at hafter
    rw [hafter, othersThan_update, hfile, othersThan_replaced (congrArg Prod.fst hkey), hnewLookup,
      updatedRecord_eq_self hC hauth]
    constructor
    · rintro hor ⟨hL, -, ⟨h₆, -⟩ | ⟨-, -, rk', hfind', -, hdiff⟩⟩
      · rw [hsub] at h₆
        cases h₆
      · obtain rfl : rk = rk' := Option.some.inj (hfind.symm.trans hfind')
        exact hor.elim hL hdiff
    · intro hits
      by_contra hor
      rw [not_or] at hor
      exact hits ⟨hor.1, hp, .inr ⟨hsub, hu, rk, hfind, hsame, hor.2⟩⟩
  · obtain ⟨e, w', hrun, hkeep, -⟩ := updateUserInformation_keeps (P := P) hlen fun hp hu rk hfind hsame =>
      hwrites ⟨hp, hu, rk, by rw [← hfiles]; exact hfind, by rw [← hkeys]; exact hsame⟩
    rw [final_of_error hrun, hkeep, hfiles] at hafter
    refine ⟨fun _ hits => ?_, fun _ n => by rw [hafter]⟩
    obtain ⟨-, hp, ⟨h₆, -⟩ | ⟨-, hu, rk, hfind, hsame, -⟩⟩ := hits
    · rw [hsub] at h₆
      cases h₆
    · exact hwrites ⟨hp, hu, rk, hfind, hsame⟩

/-- In every reachable state, a credentialManagement request that a token with the permissions RP ID
`R` authorised concerns the records of `R` only, unless its credential ID names a record of another RP
that it then deletes or rewrites. -/
theorem bound_request_stays_within_iff (hC : P.prims.CtrUndoes) {h : List Entry} {w : World}
    (hr : Run P (.request r :: h) w) (hb : r.BoundTo P CM R) :
    r.StaysWithin P h CM R ↔ ¬ r.HitsAnother P CM R := by
  obtain ⟨hrun, hv, -⟩ := hr.of_request
  have hw := hrun.storeOk
  obtain ⟨-, hhash⟩ := hb.rpIdHash
  have hothers : (∀ n, othersThan (r.lookup P R) (r.after.rkFiles n)
      = othersThan (r.lookup P R) (r.before.rkFiles n)) ↔ ¬ r.HitsAnother P CM R := by
    by_cases h₆ : CM.subCommand = 6
    · exact hb.delete_others hv hw h₆
    by_cases h₇ : CM.subCommand = 7
    · exact hb.update_others hC hv hw h₇
    obtain ⟨w₁, hfiles, -, -, -, -, hafter, -⟩ := hb.run hv
    rw [credMgmtCommand_files h₆ h₇, hfiles] at hafter
    refine ⟨fun _ hits => ?_, fun _ n => by rw [hafter]⟩
    rcases hits.2.2 with ⟨h, -⟩ | ⟨h, -⟩
    · exact h₆ h
    · exact h₇ h
  refine ⟨fun hs => hothers.mp hs.others, fun hits => ⟨hothers.mpr hits, ?_, ?_⟩⟩
  · intro hsub hok
    obtain ⟨w₁, hfiles, hkeys, -, -, -, -, -, hcmd⟩ := hb.run hv
    obtain ⟨w₂, hcmd⟩ := hcmd hok
    rw [credMgmtCommand_begin hsub] at hcmd
    have hshow := enumerateCredentialsBegin_ok hcmd
    rw [hfiles, hkeys, hhash] at hshow
    exact hshow
  · intro hsub h₁ r' w' hrun' hno hnext
    obtain ⟨hrun', hv', -⟩ := hrun'.of_request
    have hafter : r.after.EnumeratesOnly (P.prims.sha256 R) := by
      obtain ⟨w₁, -, -, -, -, -, -, hcm, -⟩ := hb.run hv
      unfold World.EnumeratesOnly
      rw [hcm, credMgmtCommand_begin hsub, ← hhash]
      exact enumerateCredentialsBegin_enumerates (parseCredentialManagementRequest_absent hb.parsed) w₁
    have hbefore := hrun'.enumeratesOnly hno hafter
    obtain ⟨hc, hok, CM', hparse, h₅⟩ := hnext
    obtain ⟨w₂, -, hd⟩ := hv'.run
    rcases hd with ⟨-, hd⟩ | ⟨e, herr, -⟩
    · have hcmd := (dispatch_ok hd).2
      rw [hc] at hcmd
      change ctapCredentialManagement P r'.request _ = _ at hcmd
      unfold ctapCredentialManagement at hcmd
      obtain ⟨CM'', hparse', hcmd⟩ := ctapCheck_bind_eq_ok.mp hcmd
      obtain rfl : CM' = CM'' := Except.ok.inj (hparse.symm.trans hparse')
      rw [bind_of_ok (show verifyPinAuthForCredentialManagement P CM' _ = .ok () _ from
        by unfold verifyPinAuthForCredentialManagement; rw [if_pos (.inr h₅)]; rfl),
        credMgmtCommand_next h₅] at hcmd
      obtain ⟨hvalid, hinit, hshow⟩ := enumerateCredentialsGetNextCredential_ok hcmd
      have hash : r'.before.cm.rpIdHash = P.prims.sha256 R := hbefore hvalid hinit
      change ∃ rk ∈ r'.before.rkFiles (rkFile (rpIdLookupOf P.prims r'.before.keys r'.before.cm.rpIdHash)),
        rk.id.rpIdLookup = rpIdLookupOf P.prims r'.before.keys r'.before.cm.rpIdHash ∧ _ at hshow
      rw [hash] at hshow
      exact hshow
    · rw [hok] at herr
      cases herr

end Bound

/-! ## Runs of a bound token -/

/-- Whether a request is authorised by a token bound to `R`. -/
def Served.isBoundTo (P : Platform) (r : Served) (R : List UInt8) : Bool :=
  match parseCredentialManagementRequest r.request with
  | .error _ => false
  | .ok CM =>
    let t := (r.before.token (slotOf CM.pinProtocol)).state
    commandOf r.cmd = .credentialManagement && !clientPinIsLocked r.before &&
      !clientPinIsBootLocked r.before && (CM.subCommand ≠ 3 && CM.subCommand ≠ 5) &&
      (match verifyPinAuthForCredentialManagement P CM (r.before.withInputs r.after.inputs) with
        | .ok _ _ => true
        | .error _ _ => false) &&
      t.permissionsRpIdPresent && t.permissionsRpIdHash = P.prims.sha256 R

theorem Served.boundTo_of_isBoundTo {P : Platform} {r : Served} {R : List UInt8}
    (h : r.isBoundTo P R = true) : ∃ CM, r.BoundTo P CM R := by
  unfold Served.isBoundTo at h
  split at h
  · cases h
  · rename_i CM hparse
    simp only [Bool.and_eq_true, decide_eq_true_eq, Bool.not_eq_true'] at h
    obtain ⟨⟨⟨⟨⟨⟨hc, hlock⟩, hboot⟩, h₃, h₅⟩, hver⟩, hpresent⟩, hhash⟩ := h
    refine ⟨CM, ⟨hc, hlock, hboot, hparse, ⟨h₃, h₅⟩, ?_⟩, hpresent, hhash⟩
    split at hver
    · rename_i w₁ hok
      exact ⟨w₁, hok⟩
    · cases hver

/-- A credential for the given RP is stored, a token for RP a with the permission cm is issued, and
under it the credential is deleted, with the rpIdHash of RP a in the request. -/
def deleteBound (rp : String) : Option (World × List Served) :=
  (serveAll simPlatform simStart [touched 1 (encMap (makeCredentialMembers rp 1)),
    touched 6 (setPinRequest "1234"), touched 6 (getTokenRequest "1234" 4 "a")]).bind fun x =>
  (serveAll simPlatform x.1 [touched 0x0a (credMgmtRequest 6
    [([1], encBytes (simSha256 (ascii "a")).toList),
      ([2], encCredential (x.1.records.head?.getD {}).id)])]).map fun y => (y.1, y.2 ++ x.2)

theorem deleteBound_run {rp : String} {w : World} {rs : List Served} (h : deleteBound rp = some (w, rs)) :
    Run simPlatform (rs.map .request ++ [.boot simStart]) w := by
  obtain ⟨⟨w₁, rs₁⟩, h₁, h⟩ := Option.bind_eq_some_iff.mp h
  obtain ⟨⟨w₂, rs₂⟩, h₂, heq⟩ := Option.map_eq_some_iff.mp h
  obtain ⟨rfl, rfl⟩ := Prod.mk.inj heq
  have hrun := serveAll_run (serveAll_run run_simStart h₁) h₂
  rwa [← List.append_assoc, ← List.map_append] at hrun

theorem simCipher_undoes : simPlatform.prims.CtrUndoes := by
  intro k iv n b
  refine Bytes.ext_toList ?_
  show List.zipWith _ (List.zipWith _ b.toList _) _ = b.toList
  refine List.ext_getElem (by simp) fun i h₁ h₂ => ?_
  simp [UInt8.xor_assoc]

/-- The credential is one of RP a. -/
theorem bound_request_stays_within_iff_own_credential :
    ∃ h w r CM, Run simPlatform (.request r :: h) w ∧ r.BoundTo simPlatform CM (ascii "a") ∧
      (r.StaysWithin simPlatform h CM (ascii "a") ↔ ¬ r.HitsAnother simPlatform CM (ascii "a")) := by
  have heval : (deleteBound "a").map (fun x => x.2.head?.map fun r =>
      (r.status, r.isBoundTo simPlatform (ascii "a"))) = some (some (.ok, true)) := by
    decide +kernel
  obtain ⟨⟨w, rs⟩, hrs, hhead⟩ := Option.map_eq_some_iff.mp heval
  obtain ⟨r, hr, hprops⟩ := Option.map_eq_some_iff.mp hhead
  obtain ⟨rs', rfl⟩ := List.head?_eq_some_iff.mp hr
  obtain ⟨CM, hb⟩ := Served.boundTo_of_isBoundTo (Prod.mk.inj hprops).2
  have hrun := deleteBound_run hrs
  exact ⟨_, w, r, CM, hrun, hb, bound_request_stays_within_iff simCipher_undoes hrun hb⟩

/-- A token for RP a deletes the only credential of RP b. -/
theorem bound_token_deletes_credential_of_another_rp :
    ∃ h w r CM, Run simPlatform (.request r :: h) w ∧ r.BoundTo simPlatform CM (ascii "a") ∧
      r.status = .ok ∧ CM.subCommand = 6 ∧ ¬ r.StaysWithin simPlatform h CM (ascii "a") := by
  have heval : (deleteBound "b").map (fun x => x.2.head?.map fun r =>
      (r.status, r.isBoundTo simPlatform (ascii "a"),
        (match parseCredentialManagementRequest r.request with
          | .ok CM => CM.subCommand
          | .error _ => 0),
        (List.finRange 16).any fun n => othersThan (r.lookup simPlatform (ascii "a")) (r.after.rkFiles n)
          ≠ othersThan (r.lookup simPlatform (ascii "a")) (r.before.rkFiles n)))
      = some (some (.ok, true, 6, true)) := by
    decide +kernel
  obtain ⟨⟨w, rs⟩, hrs, hhead⟩ := Option.map_eq_some_iff.mp heval
  obtain ⟨r, hr, hprops⟩ := Option.map_eq_some_iff.mp hhead
  obtain ⟨rs', rfl⟩ := List.head?_eq_some_iff.mp hr
  simp only [Prod.mk.injEq] at hprops
  obtain ⟨hok, hbound, hsub, hdiff⟩ := hprops
  obtain ⟨CM, hb⟩ := Served.boundTo_of_isBoundTo hbound
  rw [hb.parsed] at hsub
  refine ⟨_, w, r, CM, deleteBound_run hrs, hb, hok, hsub, fun hs => ?_⟩
  obtain ⟨n, -, hn⟩ := List.any_eq_true.mp hdiff
  exact absurd (hs.others n) (by simpa using hn)

end TkeyFido2
