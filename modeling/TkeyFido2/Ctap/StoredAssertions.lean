import Mathlib.Data.List.Perm.Basic
import TkeyFido2.Ctap.NextAssertion
import TkeyFido2.Ctap.StoreHistory

/-!
# Assertions from the store

A request without an allow list is answered from the store: authenticatorGetAssertion uses one credential of
the RP and saves the others for authenticatorGetNextAssertion.  Together they hand out the credentials that
are held for the users of the RP, each one once, and those created last come first.
-/

namespace TkeyFido2

open Cbor Prog

variable {P : Platform}

/-! ## What the store offers -/

/-- A credential that may be used without being named. -/
def CredentialId.Unprotected (C : Primitives) (k : SessionKeys) (id : CredentialId) : Prop :=
  credProtectOf C k id ≠ 2 ∧ credProtectOf C k id ≠ 3

instance (C : Primitives) (k : SessionKeys) (id : CredentialId) : Decidable (id.Unprotected C k) :=
  inferInstanceAs (Decidable (_ ∧ _))

/-- A request that verifies the user. -/
def GetAssertion.VerifiesUser (GA : GetAssertion) : Prop := 0 < GA.pinUvAuthParam.len

instance (GA : GetAssertion) : Decidable GA.VerifiesUser := inferInstanceAs (Decidable (_ < _))

/-- The lookup MAC of the RP of a request. -/
def World.lookupOf (P : Platform) (w : World) (GA : GetAssertion) : Bytes 16 :=
  rpIdLookupOf P.prims w.keys (P.prims.sha256 GA.rp.bytes)

/-- The records of the RP that a request may use without naming them. -/
def World.offered (P : Platform) (w : World) (GA : GetAssertion) : List ResidentKey :=
  (w.rkFiles (rkFile (w.lookupOf P GA))).filter fun rk =>
    rk.id.rpIdLookup = w.lookupOf P GA ∧ (GA.VerifiesUser ∨ rk.id.Unprotected P.prims w.keys)

/-- A record as it is handed out, with its user decrypted. -/
def ResidentKey.descriptor (C : Primitives) (k : SessionKeys) (rk : ResidentKey) : CredentialDescriptor :=
  { type := .pubKey, id := rk.id, user := (rk.xcrypt C k).user }

section Offered

variable {w : World} {GA : GetAssertion} {C : Primitives} {k : SessionKeys} {id : CredentialId} {f : Filter}
  {rk : ResidentKey}

/-- The credProtect check on a stored record. -/
theorem checkCredentialMetadata_stored {verified : Bool} :
    ctapCheckCredentialMetadata C k id verified false = true ↔ verified = true ∨ id.Unprotected C k := by
  have heq (n : UInt8) : credProtectOf C k id = n ↔ (credProtectOf C k id).toNat = n.toNat :=
    UInt8.toNat_inj.symm
  unfold ctapCheckCredentialMetadata CredentialId.Unprotected
  rw [Ne, Ne, heq, heq]
  change _ ↔ _ ∨ (credProtectOf C k id).toNat ≠ 2 ∧ (credProtectOf C k id).toNat ≠ 3
  split
  · rename_i h
    simp [h]
  · rename_i h
    simp [h]
  · rename_i h₂ h₃
    exact ⟨fun _ => .inr ⟨h₂, h₃⟩, fun _ => rfl⟩

/-- The MACs of a record in the store refuse nothing. -/
theorem storedPasses_iff (hrk : rk.Authentic C f.keys) :
    storedPasses C f rk = true ↔
      rk.id.rpIdLookup = f.rpIdLookup ∧ (f.userVerified = true ∨ rk.id.Unprotected C f.keys) := by
  unfold storedPasses storedQualifies
  rw [Bool.and_eq_true, Bool.and_eq_true, Bool.and_eq_true, checkCredentialMetadata_stored, decide_eq_true_eq,
    decide_eq_true_eq]
  constructor
  · rintro ⟨⟨⟨hlookup, -⟩, hlevel⟩, -⟩
    exact ⟨hlookup.symm, hlevel⟩
  · rintro ⟨hlookup, hlevel⟩
    refine ⟨⟨⟨hlookup.symm, ?_⟩, hlevel⟩, hrk.rkTag⟩
    rw [← hlookup]
    exact hrk.tag

theorem mem_offered : rk ∈ w.offered P GA ↔ rk ∈ w.rkFiles (rkFile (w.lookupOf P GA)) ∧
    rk.id.rpIdLookup = w.lookupOf P GA ∧ (GA.VerifiesUser ∨ rk.id.Unprotected P.prims w.keys) := by
  unfold World.offered
  rw [List.mem_filter, decide_eq_true_eq]

/-- No user of the RP is offered twice. -/
theorem StoreOk.offered_nodup (hw : StoreOk P w) : ((w.offered P GA).map ResidentKey.key).Nodup :=
  (hw.unique _).sublist (List.filter_sublist.map _)

/-- What is offered is what is held for the users of the RP. -/
theorem exists_offered_iff : (∃ rk ∈ w.offered P GA, rk.id = id) ↔
    (GA.VerifiesUser ∨ id.Unprotected P.prims w.keys) ∧ ∃ user, w.HoldsId (w.lookupOf P GA, user) id := by
  constructor
  · rintro ⟨rk, hrk, rfl⟩
    obtain ⟨hmem, hlookup, hlevel⟩ := mem_offered.mp hrk
    refine ⟨hlevel, rk.userIdLookup, rk, ?_, ?_, rfl⟩
    · unfold World.Stores
      rwa [hlookup]
    · rw [← hlookup]
      rfl
  · rintro ⟨hlevel, user, rk, hstores, hkey, rfl⟩
    have hlookup : rk.id.rpIdLookup = w.lookupOf P GA := congrArg Prod.fst hkey
    unfold World.Stores at hstores
    rw [hlookup] at hstores
    exact ⟨rk, mem_offered.mpr ⟨hstores, hlookup, hlevel⟩, rfl⟩

end Offered

/-! ## The list of a request -/

section Requests

variable {request : List UInt8} {w w' : World}

theorem AssertionRun.filter_rpIdLookup (A : AssertionRun P request w w') :
    A.filter.rpIdLookup = w.lookupOf P A.GA := by
  show rpIdLookupOf P.prims A.parsed.keys _ = rpIdLookupOf P.prims w.keys _
  have hkeys : A.parsed.keys = w.keys := (touches_parseGetAssertionRequest .keys (by decide)).ok A.parse
  rw [hkeys]

theorem AssertionRun.verified_iff (A : AssertionRun P request w w') :
    A.filter.userVerified = true ↔ A.GA.VerifiesUser := by
  rw [A.filter_userVerified, decide_eq_true_eq]
  unfold GetAssertion.uvFlag GetAssertion.VerifiesUser
  by_cases h : 0 < A.GA.pinUvAuthParam.len
  · simp [h]
  · simp [h]

/-- The filter of a request without an allow list. -/
theorem AssertionRun.filter_stored (A : AssertionRun P request w w') (hw : StoreOk P w) :
    (A.filter.rkFiles (rkFile A.filter.rpIdLookup)).filter (storedPasses P.prims A.filter)
      = w.offered P A.GA := by
  rw [A.filter_rkFiles, A.filter_rpIdLookup]
  refine List.filter_congr fun rk hrk => ?_
  have hauth : rk.Authentic P.prims A.filter.keys := by
    rw [A.filter_keys]
    exact hw.authentic _ rk hrk
  rw [Bool.eq_iff_iff, storedPasses_iff hauth, A.verified_iff, A.filter_rpIdLookup, A.filter_keys,
    decide_eq_true_eq]

/-- The list of a request without an allow list: the first twenty records that are offered, sorted. -/
theorem AssertionRun.creds_stored (A : AssertionRun P request w w') (hw : StoreOk P w)
    (hlist : A.GA.credLen = 0) : ∃ l : List ResidentKey, l.Perm ((w.offered P A.GA).take 20) ∧
      l.Pairwise (fun a b => b.id.count ≤ a.id.count) ∧
      A.creds = l.map (ResidentKey.descriptor P.prims w.keys) := by
  have hfiltered := A.filtered
  have hdescriptor : storedDescriptor P.prims A.filter = ResidentKey.descriptor P.prims w.keys := by
    funext rk
    unfold storedDescriptor ResidentKey.descriptor
    rw [A.filter_keys]
  have hcreds : A.creds
      = P.qsort.sort (((w.offered P A.GA).take 20).map (ResidentKey.descriptor P.prims w.keys)) := by
    unfold AssertionRun.creds
    generalize A.listed.ga.creds = listed at hfiltered ⊢
    generalize A.count = count at hfiltered ⊢
    cases hfiltered with
    | named n hn _ => omega
    | refused hne _ _ => exact absurd hlist hne
    | stored _ creds' htake =>
      rw [take_sortPrefix, htake, A.filter_stored hw, hdescriptor]
  have hperm : A.creds.Perm (((w.offered P A.GA).take 20).map (ResidentKey.descriptor P.prims w.keys)) := by
    rw [hcreds]
    exact P.qsort.perm _
  have hsorted : A.creds.Pairwise credCmpLe := by
    rw [hcreds]
    exact P.qsort.sorted _
  have hsplit := congrFun₂ (List.eq_map_comp_perm (ResidentKey.descriptor P.prims w.keys)) A.creds
    ((w.offered P A.GA).take 20)
  obtain ⟨l, hl, hmoved⟩ := hsplit.mpr hperm
  refine ⟨l, hmoved, ?_, hl⟩
  rw [hl, List.pairwise_map] at hsorted
  exact hsorted

end Requests

/-! ## Handing out -/

/-- A request that signs with the credential `c`, with or without the name of the user, and with no other. -/
def Served.HandsOut (r : Served) (c : CredentialDescriptor) : Prop :=
  (∃ cred, r.SignsWith cred) ∧ ∀ cred, r.SignsWith cred → cred.Shows c

def Entry.HandsOut (e : Entry) (c : CredentialDescriptor) : Prop := ∃ r, e = .request r ∧ r.HandsOut c

section Handing

variable {g r : Served} {GA : GetAssertion} {creds : List CredentialDescriptor} {nexts earlier : List Entry}
  {w : World} {authData : List UInt8}

theorem Asserted.handsOut {w : World} {cred : CredentialDescriptor}
    (h : Asserted P w r.after GA creds cred authData) (hw : w.assertionEvents = []) :
    ∃ c, creds[0]? = some c ∧ r.HandsOut c := by
  obtain ⟨c, hc, hshows⟩ := h.shows
  refine ⟨c, hc, ⟨cred, authData, _, h.signed_mem⟩, ?_⟩
  rintro cred' ⟨authData', hash, hs⟩
  rwa [← (h.signed_eq hw hs).1]

theorem NextAsserted.handsOut {w : World} {cred : CredentialDescriptor}
    (h : NextAsserted w r.after cred authData) (hw : w.assertionEvents = []) :
    r.HandsOut (w.ga.creds.nth w.ga.index.toNat) := by
  have hevents := h.events
  rw [hw, List.nil_append] at hevents
  refine ⟨⟨cred, authData, _, by rw [hevents]; exact List.mem_singleton_self _⟩, ?_⟩
  rintro cred' ⟨authData', hash, hs⟩
  rw [hevents, List.mem_singleton] at hs
  rw [(Event.signed.inj hs).1]
  exact h.shows

/-- Behind `g` and its continuations: they handed out the first credentials of the list, and the others are
saved. -/
theorem Run.handsOut (hr : Run P (nexts ++ .request g :: earlier) w)
    (hnexts : ∀ e ∈ nexts, ∃ r, e = .request r ∧ r.Continues) (hs : g.after.Saved P g 0 GA creds authData)
    (hfirst : ∃ c, creds[0]? = some c ∧ g.HandsOut c) :
    w.Saved P g nexts.length GA creds authData ∧ nexts.length < creds.length ∧
      List.Forall₂ Entry.HandsOut (.request g :: nexts.reverse) (creds.take (nexts.length + 1)) := by
  induction nexts generalizing w with
  | nil =>
    obtain ⟨-, -, rfl⟩ := hr.of_request
    obtain ⟨c, hc, hout⟩ := hfirst
    obtain ⟨hlt, hget⟩ := List.getElem?_eq_some_iff.mp hc
    refine ⟨hs, hlt, ?_⟩
    rw [List.length_nil, Nat.zero_add, List.take_add_one, hc]
    exact .cons ⟨g, rfl, hout⟩ .nil
  | cons e nexts ih =>
    obtain ⟨r, rfl, hcont⟩ := hnexts e (List.mem_cons_self ..)
    obtain ⟨hr', hv, rfl⟩ := hr.of_request
    obtain ⟨hsaved, hlt, hall⟩ := ih hr' fun e he => hnexts e (List.mem_cons_of_mem _ he)
    obtain ⟨-, cred, authData', hnext⟩ := hv.nextAsserted hcont.1 hcont.2
    obtain ⟨-, hsaved'⟩ := hsaved.next hnext
    have hindex := hsaved.index
    have hcount := hsaved.count
    have hleft : r.before.ga.index.toNat < r.before.ga.count.toNat := UInt32.lt_iff_toNat_lt.mp hnext.left
    have hlt' : nexts.length + 1 < creds.length := by omega
    have hc := hsaved.saved nexts.length le_rfl hlt'
    refine ⟨hsaved', hlt', ?_⟩
    rw [List.reverse_cons, List.length_cons, List.take_add_one, hc, ← List.cons_append]
    refine List.rel_append hall (.cons ⟨r, rfl, ?_⟩ .nil)
    rw [← hindex]
    exact hnext.handsOut rfl

/-- Nothing is left: authenticatorGetNextAssertion is refused. -/
theorem dispatch_nothing_left {request : List UInt8} (h : ¬ w.CredentialsLeft) :
    dispatch P .getNextAssertion request w = .error (.status .notAllowed) w := by
  unfold dispatch
  rw [get_bind, failIf_bind_of_not (by simp [Command.checksLock]), get_bind,
    failIf_bind_of_not (by simp [Command.checksLock])]
  dsimp only
  rw [get_bind]
  by_cases hlast : w.ga.lastcmd = 0x02
  · have hnone : getNextCredential w = .ok none w := by
      unfold getNextCredential
      rw [get_bind]
      dsimp only
      rw [if_neg fun hleft => h hleft.2]
      rfl
    rw [failIf_bind_of_not (not_not.mpr hlast)]
    unfold ctapGetNextAssertion
    rw [bind_of_ok hnone]
    rfl
  · rw [failIf_bind_of hlast]

theorem Served.Valid.nothing_left (hv : r.Valid P) (hc : commandOf r.cmd = .getNextAssertion)
    (h : ¬ r.before.CredentialsLeft) : r.status = .error .notAllowed := by
  obtain ⟨w₁, -, hd⟩ := hv.run
  rw [hc, dispatch_nothing_left (w := r.before.withInputs r.after.inputs) h] at hd
  rcases hd with ⟨-, hd⟩ | ⟨e, herr, hd⟩
  · cases hd
  · cases hd
    exact herr

/-- The first credential of the list is handed out by the request itself. -/
theorem Served.Valid.opens_stored (hv : g.Valid P) (hw : StoreOk P g.before)
    (hc : commandOf g.cmd = .getAssertion) (hok : g.status = .ok) (hparse : g.ParsesAssertion GA)
    (hlist : GA.credLen = 0) :
    ∃ (l : List ResidentKey) (authData : List UInt8), l.Perm ((g.before.offered P GA).take 20) ∧
      l.Pairwise (fun a b => b.id.count ≤ a.id.count) ∧
      g.after.Saved P g 0 GA (l.map (ResidentKey.descriptor P.prims g.before.keys)) authData ∧
      ∃ c, (l.map (ResidentKey.descriptor P.prims g.before.keys))[0]? = some c ∧ g.HandsOut c := by
  obtain ⟨w₁, hafter, hd⟩ := hv.run
  rcases hd with ⟨-, hd⟩ | ⟨e, herr, -⟩
  · have hcmd := (dispatch_ok hd).2
    rw [hc] at hcmd
    obtain ⟨A⟩ := ctapGetAssertion_ok hcmd
    obtain ⟨w₂, hparse⟩ := hparse
    obtain ⟨rfl, -⟩ : GA = A.GA ∧ w₂ = A.parsed := by simpa using hparse.symm.trans A.parse
    have hstore : StoreOk P (g.before.withInputs g.after.inputs) :=
      ignores_storeOk.mono (S := requestParts) (by decide) _ _ (fun p hp => withInputs_view hp) hw
    obtain ⟨l, hmoved, hsorted, hcreds⟩ := A.creds_stored hstore hlist
    obtain ⟨cred, authData, h⟩ := A.asserted
    have h' := h.with_lastcmd hafter
    rw [hcreds] at h'
    refine ⟨l, authData, hmoved, hsorted, ⟨?_, ?_, h'.count, h'.few, fun i _ hi => h'.saved i hi, h'.hash, ?_,
      h'.flags_kept⟩, h'.handsOut rfl⟩
    · exact ⟨hc, hok, ⟨_, A.parse⟩, ⟨cred, h'.events⟩, h'.rpIdHash,
        fun hup => (List.mem_filter.mp (h'.presence hup)).1⟩
    · rw [h'.index]
      rfl
    · rw [h'.rpIdHash_kept, h'.rpIdHash]
  · rw [hok] at herr
    cases herr

/-- **Assertions from the store.**  A successful authenticatorGetAssertion without an allow list and the
authenticatorGetNextAssertions right behind it hand out, one after the other, the records that the store holds
for the RP, up to twenty: those of its users since the last reset whose credential the request may use, each of
them once, and the ones created last first.  When all are handed out the next request is refused. -/
theorem stored_credentials_asserted (hr : Run P (nexts ++ .request g :: earlier) w)
    (hc : commandOf g.cmd = .getAssertion) (hok : g.status = .ok) (hparse : g.ParsesAssertion GA)
    (hlist : GA.credLen = 0) (hnexts : ∀ e ∈ nexts, ∃ r, e = .request r ∧ r.Continues) :
    (∀ id, (∃ rk ∈ g.before.offered P GA, rk.id = id) ↔
      (GA.VerifiesUser ∨ id.Unprotected P.prims g.before.keys) ∧
        ∃ user, currentId earlier (g.before.lookupOf P GA, user) = some id) ∧
    ∃ l : List ResidentKey, l.Perm ((g.before.offered P GA).take 20) ∧ (l.map ResidentKey.key).Nodup ∧
      l.Pairwise (fun a b => b.id.count ≤ a.id.count) ∧ nexts.length < l.length ∧
      List.Forall₂ (fun e rk => e.HandsOut (rk.descriptor P.prims g.before.keys))
        (.request g :: nexts.reverse) (l.take (nexts.length + 1)) ∧
      (nexts.length + 1 = l.length → ∀ r : Served, r.Valid P → r.before = w →
        commandOf r.cmd = .getNextAssertion → r.status = .error .notAllowed) := by
  obtain ⟨hr', hv, -⟩ := hr.suffix.of_request
  have hstore : StoreOk P g.before := hr'.storeOk
  obtain ⟨l, authData, hmoved, hsorted, hsaved, hfirst⟩ := hv.opens_stored hstore hc hok hparse hlist
  obtain ⟨hsaved', hlt, hall⟩ := hr.handsOut hnexts hsaved hfirst
  rw [List.length_map] at hlt
  constructor
  · intro id
    rw [exists_offered_iff]
    exact and_congr_right fun _ => exists_congr fun user => hr'.tracked.1 (_, user) id
  · refine ⟨l, hmoved, ?_, hsorted, hlt, ?_, fun hlast r hv hb hnext => hv.nothing_left hnext ?_⟩
    · exact (hmoved.map _).nodup_iff.mpr (hstore.offered_nodup.sublist ((List.take_sublist ..).map _))
    · rwa [← List.map_take, List.forall₂_map_right_iff] at hall
    · have hindex := hsaved'.index
      have hcount := hsaved'.count
      rw [List.length_map] at hcount
      subst hb
      unfold World.CredentialsLeft
      rw [UInt32.lt_iff_toNat_lt]
      omega

end Handing

/-- A request without an allow list for an RP with two records. -/
def Served.offersTwo (g : Served) : Bool :=
  match parseGetAssertionRequest g.request (g.before.withInputs g.after.inputs) with
  | .ok GA _ => GA.credLen = 0 ∧ (g.before.offered simPlatform GA).length = 2
  | .error _ _ => false

theorem Served.offersTwo_spec {g : Served} (h : g.offersTwo = true) :
    ∃ GA, g.ParsesAssertion GA ∧ GA.credLen = 0 ∧ (g.before.offered simPlatform GA).length = 2 := by
  unfold Served.offersTwo at h
  split at h
  · rename_i GA w hparse
    obtain ⟨hlist, htwo⟩ := of_decide_eq_true h
    exact ⟨GA, ⟨w, hparse⟩, hlist, htwo⟩
  · cases h

/-- Both credentials of an RP with two users, and then nothing more. -/
theorem stored_credentials_asserted_two : ∃ (g r r' : Served) (rk rk' : ResidentKey),
    g.HandsOut (rk.descriptor simPlatform.prims g.before.keys) ∧
    r.HandsOut (rk'.descriptor simPlatform.prims g.before.keys) ∧ rk.key ≠ rk'.key ∧
    rk'.id.count ≤ rk.id.count ∧ r'.before = r.after ∧ r'.status = .error .notAllowed := by
  have heval : (serveAll simPlatform simStart
      (threeCredentials ++ [touched 2 (assertionRequest "a"), touched 8 [], touched 8 []])).map
      (fun x => (x.2.map fun r => (r.cmd, r.status), x.2[2]?.map Served.offersTwo))
      = some ([(8, .error .notAllowed), (8, .ok), (2, .ok), (1, .ok), (1, .ok), (1, .ok)], some true) := by
    decide +kernel
  obtain ⟨⟨w, rs⟩, hrs, hall⟩ := Option.map_eq_some_iff.mp heval
  obtain ⟨hmap, htwo⟩ := Prod.mk.inj hall
  obtain ⟨r', rs, rfl, hr', hmap⟩ := List.map_eq_cons_iff.mp hmap
  obtain ⟨r, rs, rfl, hr, hmap⟩ := List.map_eq_cons_iff.mp hmap
  obtain ⟨g, rs, rfl, hg, -⟩ := List.map_eq_cons_iff.mp hmap
  simp only [Prod.mk.injEq] at hr' hr hg
  obtain ⟨GA, hparse, hlist, hlength⟩ := Served.offersTwo_spec (Option.some.inj htwo)
  let earlier : List Entry := rs.map .request ++ [.boot simStart]
  have hrun : Run simPlatform (.request r' :: .request r :: .request g :: earlier) w :=
    serveAll_run run_simStart hrs
  obtain ⟨hrun₁, hv', -⟩ := hrun.of_request
  obtain ⟨-, -, hbefore⟩ := hrun₁.of_request
  have hrun' : Run simPlatform ([.request r] ++ .request g :: earlier) r'.before := hrun₁
  have hcont : r.Continues := ⟨commandOf_eq_getNextAssertion.mpr hr.1, hr.2⟩
  obtain ⟨-, l, hmoved, hnodup, hsorted, -, hhanded, hend⟩ := stored_credentials_asserted hrun'
    (commandOf_eq_getAssertion.mpr hg.1) hg.2 hparse hlist fun e he => ⟨r, List.mem_singleton.mp he, hcont⟩
  have hl : l.length = 2 := by rw [hmoved.length_eq, List.length_take, hlength]; rfl
  obtain ⟨rk, rk', rfl⟩ := List.length_eq_two.mp hl
  obtain ⟨⟨_, ⟨⟩, hfirst⟩, hrest⟩ := List.forall₂_cons.mp hhanded
  obtain ⟨⟨_, ⟨⟩, hsecond⟩, -⟩ := List.forall₂_cons.mp hrest
  refine ⟨g, r, r', rk, rk', hfirst, hsecond, ?_, ?_, hbefore,
    hend rfl r' hv' rfl (commandOf_eq_getNextAssertion.mpr hr'.1)⟩
  · simpa using hnodup
  · simpa using hsorted

end TkeyFido2
