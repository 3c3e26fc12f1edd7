import TkeyFido2.Ctap.Assertion
import TkeyFido2.Ctap.Persistence

/-!
# What authenticatorGetNextAssertion continues

The saved credentials, the authenticator data and the client data hash lie in one global structure
that every authenticatorGetAssertion writes to, also one that fails.  A successful
authenticatorGetNextAssertion continues the last successful authenticatorGetAssertion as long as it
is not sent right behind a failed one while saved credentials are left.
-/

namespace TkeyFido2

open Cbor Prog

variable {P : Platform}

/-! ## Statements about histories -/

/-- An authenticatorGetNextAssertion that succeeded. -/
def Served.Continues (r : Served) : Prop := commandOf r.cmd = .getNextAssertion ∧ r.status = .ok

/-- An authenticatorGetAssertion that failed. -/
def Served.FailsToAssert (r : Served) : Prop := commandOf r.cmd = .getAssertion ∧ r.status ≠ .ok

/-- Saved credentials are left. -/
def World.CredentialsLeft (w : World) : Prop := w.ga.index < w.ga.count

instance (w : World) : Decidable w.CredentialsLeft := inferInstanceAs (Decidable (_ < _))

/-- No authenticatorGetNextAssertion comes right behind a failed authenticatorGetAssertion while saved
credentials are left. -/
def Careful (h : List Entry) : Prop :=
  ∀ h₁ r g h₂, h = h₁ ++ .request r :: .request g :: h₂ → commandOf r.cmd = .getNextAssertion →
    g.FailsToAssert → ¬ g.after.CredentialsLeft

/-- The authenticatorGetAssertion `g` filtered `creds` and signed `authData`. -/
structure Served.Opens (P : Platform) (g : Served) (GA : GetAssertion) (creds : List CredentialDescriptor)
    (authData : List UInt8) : Prop where
  command : commandOf g.cmd = .getAssertion
  success : g.status = .ok
  parses : g.ParsesAssertion GA
  events : ∃ cred, g.after.assertionEvents
    = [.filtered creds] ++ GA.presenceEvents ++ [.signed cred authData GA.clientDataHash]
  rpIdHash : authDataRpIdHash authData = (P.prims.sha256 GA.rp.bytes).toList
  presence : authDataFlags authData &&& 1 ≠ 0 → .presenceTested true ∈ g.events

/-- `r` hands out the credential behind the first `k + 1` of those that `g` filtered, with the RP ID
hash, the UP and UV flags and the client data hash of `g`. -/
def Served.Belongs (P : Platform) (r g : Served) (k : Nat) : Prop :=
  ∃ GA creds authData, g.Opens P GA creds authData ∧
    ∃ cred saved authData', r.after.assertionEvents = [.signed cred authData' GA.clientDataHash] ∧
      creds[k + 1]? = some saved ∧ cred.Shows saved ∧
      authDataRpIdHash authData' = authDataRpIdHash authData ∧
      upUv (authDataFlags authData') = upUv (authDataFlags authData)

/-! ## The invariant -/

/-- The saved state is that of the request `g`, behind as many continuations as `k`. -/
structure World.Saved (P : Platform) (w : World) (g : Served) (k : Nat) (GA : GetAssertion)
    (creds : List CredentialDescriptor) (authData : List UInt8) : Prop where
  opens : g.Opens P GA creds authData
  index : w.ga.index.toNat = k
  count : w.ga.count.toNat + 1 = creds.length
  few : creds.length ≤ 20
  saved : ∀ i, k ≤ i → i + 1 < creds.length → creds[i + 1]? = some (w.ga.creds.nth i)
  hash : 1 < creds.length → w.ga.clientDataHash = GA.clientDataHash
  rpIdHash : w.ga.authData.rpIdHash.toList = authDataRpIdHash authData
  flags : upUv w.ga.authData.flags = upUv (authDataFlags authData)

/-- Where a continuation would be served, the state is that of a failed request, or it is saved from a
successful one. -/
def Pending (P : Platform) (h : List Entry) (w : World) : Prop :=
  w.ga.lastcmd = 0x02 → w.CredentialsLeft →
    (∃ g h', h = .request g :: h' ∧ g.FailsToAssert) ∨
    ∃ nexts g h', h = nexts ++ .request g :: h' ∧ (∀ e ∈ nexts, ∃ r, e = .request r ∧ r.Continues) ∧
      ∃ GA creds authData, w.Saved P g nexts.length GA creds authData

theorem Asserted.presence {w w' : World} {GA : GetAssertion} {creds : List CredentialDescriptor}
    {cred : CredentialDescriptor} {authData : List UInt8} (h : Asserted P w w' GA creds cred authData)
    (hup : authDataFlags authData &&& 1 ≠ 0) : .presenceTested true ∈ w'.assertionEvents := by
  have hno : GA.options.up ≠ .no := by
    intro hno
    rw [h.flags.up, if_pos hno] at hup
    exact hup rfl
  rw [h.events]
  simp [GetAssertion.presenceEvents, hno]

/-- A successful authenticatorGetAssertion opens a session. -/
theorem Served.Valid.opens {g : Served} (hv : g.Valid P) (hc : commandOf g.cmd = .getAssertion)
    (hok : g.status = .ok) :
    ∃ GA creds authData, g.Opens P GA creds authData ∧ g.after.Saved P g 0 GA creds authData := by
  obtain ⟨GA, creds, cred, authData, hparse, h⟩ := hv.asserted hc hok
  have hopens : g.Opens P GA creds authData :=
    ⟨hc, hok, hparse, ⟨cred, h.events⟩, h.rpIdHash, fun hup => (List.mem_filter.mp (h.presence hup)).1⟩
  refine ⟨GA, creds, authData, hopens, hopens, ?_, h.count, h.few, fun i _ hi => h.saved i hi, h.hash, ?_,
    h.flags_kept⟩
  · rw [h.index]
    rfl
  · rw [h.rpIdHash_kept, h.rpIdHash]

/-- One continuation. -/
theorem World.Saved.next {g r : Served} {k : Nat} {GA : GetAssertion} {creds : List CredentialDescriptor}
    {authData authData' : List UInt8} {cred : CredentialDescriptor}
    (hs : r.before.Saved P g k GA creds authData)
    (h : NextAsserted (r.before.withInputs r.after.inputs) r.after cred authData') :
    r.Belongs P g k ∧ r.after.Saved P g (k + 1) GA creds authData := by
  have hleft : r.before.ga.index.toNat < r.before.ga.count.toNat := UInt32.lt_iff_toNat_lt.mp h.left
  have hindex := hs.index
  have hcount := hs.count
  have hfew := hs.few
  have hk : k + 1 < creds.length := by omega
  have hhash : r.before.ga.clientDataHash = GA.clientDataHash := hs.hash (by omega)
  constructor
  · refine ⟨GA, creds, authData, hs.opens, cred, _, authData', ?_, hs.saved k le_rfl hk, ?_, ?_, ?_⟩
    · rw [h.events, ← hhash]
      rfl
    · rw [← hindex]
      exact h.shows
    · rw [h.rpIdHash]
      exact hs.rpIdHash
    · rw [h.flags]
      exact hs.flags
  · refine ⟨hs.opens, ?_, by rw [h.count]; exact hcount, hfew, fun i hi hlt => ?_, fun h₁ => ?_, ?_, ?_⟩
    · rw [h.index]
      show (r.before.ga.index + 1).toNat = k + 1
      rw [UInt32.toNat_add]
      show (r.before.ga.index.toNat + 1) % 2 ^ 32 = k + 1
      omega
    · rw [h.saved i (by show i ≠ r.before.ga.index.toNat; omega)]
      exact hs.saved i (by omega) hlt
    · rw [h.hash]
      exact hhash
    · rw [h.rpIdHash_kept]
      exact hs.rpIdHash
    · rw [h.flags_kept]
      exact hs.flags

theorem Careful.tail {e : Entry} {h : List Entry} (hc : Careful (e :: h)) : Careful h := by
  intro h₁ r g h₂ hh
  exact hc (e :: h₁) r g h₂ (by rw [hh, List.cons_append])

theorem Careful.suffix {h₁ h₂ : List Entry} (hc : Careful (h₁ ++ h₂)) : Careful h₂ := by
  induction h₁ with
  | nil => exact hc
  | cons e h₁ ih => exact ih hc.tail

/-- A continuation of a pending state belongs to the request that saved it. -/
theorem Pending.next {h : List Entry} {r : Served} (hv : r.Valid P) (hcare : Careful (.request r :: h))
    (hhead : ∀ g h', h = .request g :: h' → r.before = g.after) (hp : Pending P h r.before)
    (hr : r.Continues) :
    ∃ nexts g h', h = nexts ++ .request g :: h' ∧ (∀ e ∈ nexts, ∃ r, e = .request r ∧ r.Continues) ∧
      r.Belongs P g nexts.length ∧
      ∃ GA creds authData, r.after.Saved P g (nexts.length + 1) GA creds authData := by
  obtain ⟨hlast, cred, authData', hnext⟩ := hv.nextAsserted hr.1 hr.2
  have hleft : r.before.CredentialsLeft := hnext.left
  rcases hp hlast hleft with ⟨g, h', rfl, hfail⟩ | ⟨nexts, g, h', rfl, hall, GA, creds, authData, hs⟩
  · rw [hhead g h' rfl] at hleft
    exact absurd hleft (hcare [] r g h' rfl hr.1 hfail)
  · obtain ⟨hb, hs'⟩ := hs.next hnext
    exact ⟨nexts, g, h', rfl, hall, hb, GA, creds, authData, hs'⟩

theorem commandOf_eq_getAssertion {cmd : UInt8} : commandOf cmd = .getAssertion ↔ cmd = 0x02 := by
  unfold commandOf
  constructor
  · intro h
    repeat' split at h
    all_goals first | assumption | cases h
  · rintro rfl
    rfl

theorem commandOf_eq_getNextAssertion {cmd : UInt8} : commandOf cmd = .getNextAssertion ↔ cmd = 0x08 := by
  unfold commandOf
  constructor
  · intro h
    repeat' split at h
    all_goals first | assumption | cases h
  · rintro rfl
    rfl

theorem Served.Valid.lastcmd {r : Served} (hv : r.Valid P) (h : r.after.ga.lastcmd = 0x02) :
    commandOf r.cmd = .getAssertion ∨ r.Continues := by
  obtain ⟨w₁, hafter, -⟩ := hv.run
  rw [hafter] at h
  change nextLastcmd r.cmd r.status = 0x02 at h
  unfold nextLastcmd at h
  split at h
  · rename_i hnext
    exact .inr ⟨commandOf_eq_getNextAssertion.mpr hnext.1, hnext.2⟩
  · exact .inl (commandOf_eq_getAssertion.mpr h)

/-- The state before a request is the one behind the entry before it. -/
theorem Run.eq_after {h : List Entry} {w : World} (hr : Run P h w) (g : Served) (h' : List Entry)
    (hh : h = .request g :: h') : w = g.after := by
  subst hh
  exact hr.of_request.2.2

/-- In a careful run the saved state is that of the last authenticatorGetAssertion. -/
theorem Run.pending {h : List Entry} {w : World} (hr : Run P h w) (hcare : Careful h) : Pending P h w := by
  induction hr with
  | start hw hb =>
    obtain ⟨-, -, -, -, hst⟩ := hb.of_new hw
    intro hlast
    rw [hst.ga] at hlast
    cases hlast
  | boot hr hb ih =>
    obtain ⟨-, -, -, -, hst⟩ := hb.of_stored hr.synced.file hr.synced.version
    intro hlast
    rw [hst.ga] at hlast
    cases hlast
  | request hr r hv hb ih =>
    subst hb
    intro hlast _
    rcases hv.lastcmd hlast with hc | hnext
    · by_cases hok : r.status = .ok
      · obtain ⟨GA, creds, authData, -, hs⟩ := hv.opens hc hok
        exact .inr ⟨[], r, _, rfl, by simp, GA, creds, authData, hs⟩
      · exact .inl ⟨r, _, rfl, hc, hok⟩
    · obtain ⟨nexts, g, h', rfl, hall, -, GA, creds, authData, hs⟩ :=
        (ih hcare.tail).next hv hcare hr.eq_after hnext
      refine .inr ⟨.request r :: nexts, g, h', rfl, fun e he => ?_, GA, creds, authData, hs⟩
      rcases List.mem_cons.mp he with rfl | he
      · exact ⟨r, rfl, hnext⟩
      · exact hall e he

/-! ## Careful runs -/

/-- In every careful run a successful authenticatorGetNextAssertion belongs to the last
authenticatorGetAssertion, which succeeded, with only successful continuations in between; and an
assertion with the UP bit is handed out for an RP only if an authenticatorGetAssertion for that RP has
passed the user presence test. -/
theorem careful_nextAssertion_belongs {h : List Entry} {w : World} (hr : Run P h w) (hcare : Careful h) :
    (∀ h₁ r h₂, h = h₁ ++ .request r :: h₂ → r.Continues →
      ∃ nexts g h', h₂ = nexts ++ .request g :: h' ∧ (∀ e ∈ nexts, ∃ r', e = .request r' ∧ r'.Continues) ∧
        r.Belongs P g nexts.length) ∧
    ∀ h₁ r h₂ cred authData hash, h = h₁ ++ .request r :: h₂ → r.status = .ok →
      commandOf r.cmd ∈ [.getAssertion, .getNextAssertion] → .signed cred authData hash ∈ r.events →
      authDataFlags authData &&& 1 ≠ 0 →
      ∃ g GA, .request g ∈ Entry.request r :: h₂ ∧ commandOf g.cmd = .getAssertion ∧ g.status = .ok ∧
        g.ParsesAssertion GA ∧ authDataRpIdHash authData = (P.prims.sha256 GA.rp.bytes).toList ∧
        .presenceTested true ∈ g.events := by
  have hnext : ∀ h₁ r h₂, h = h₁ ++ .request r :: h₂ → r.Continues →
      ∃ nexts g h', h₂ = nexts ++ .request g :: h' ∧ (∀ e ∈ nexts, ∃ r', e = .request r' ∧ r'.Continues) ∧
        r.Belongs P g nexts.length := by
    rintro h₁ r h₂ rfl hcont
    obtain ⟨hr₂, hv, -⟩ := hr.suffix.of_request
    have hcare₂ := hcare.suffix
    obtain ⟨nexts, g, h', rfl, hall, hb, -⟩ :=
      (hr₂.pending hcare₂.tail).next hv hcare₂ hr₂.eq_after hcont
    exact ⟨nexts, g, h', rfl, hall, hb⟩
  refine ⟨hnext, ?_⟩
  intro h₁ r h₂ cred authData hash hh hok hc hs hup
  have hmem : .signed cred authData hash ∈ r.after.assertionEvents := List.mem_filter.mpr ⟨hs, rfl⟩
  simp only [List.mem_cons, List.not_mem_nil, or_false] at hc
  rcases hc with hc | hc
  · obtain ⟨-, hv, -⟩ := (hh ▸ hr).suffix.of_request
    obtain ⟨GA, creds, cred', authData', hparse, h⟩ := hv.asserted hc hok
    obtain rfl := (h.signed_eq rfl hmem).2
    exact ⟨r, GA, List.mem_cons_self .., hc, hok, hparse, h.rpIdHash,
      (List.mem_filter.mp (h.presence hup)).1⟩
  · obtain ⟨nexts, g, h', rfl, -, GA, creds, authData', hopens, cred', saved, authData'', hev, -, -, hrp, hfl⟩ :=
      hnext h₁ r h₂ hh ⟨hc, hok⟩
    obtain rfl : authData = authData'' := by
      rw [hev, List.mem_singleton] at hmem
      exact (Event.signed.inj hmem).2.1
    have hup' : authDataFlags authData' &&& 1 ≠ 0 := by
      have hbit : authDataFlags authData &&& 1 = authDataFlags authData' &&& 1 := congrArg Prod.fst hfl
      rwa [← hbit]
    exact ⟨g, GA, List.mem_cons_of_mem _ (by simp), hopens.command, hopens.success, hopens.parses,
      hrp.trans hopens.rpIdHash, hopens.presence hup'⟩

/-- A request without an allow list. -/
def assertionRequest (rpId : String) : List UInt8 :=
  encMap (getAssertionMembersOf rpId (List.replicate 32 9))

/-- Two credentials for one RP and one for another. -/
def threeCredentials : List Message :=
  [touched 1 (encMap (makeCredentialMembers "a" 1)), touched 1 (encMap (makeCredentialMembers "a" 2)),
    touched 1 (encMap (makeCredentialMembers "b" 1))]

/-- An assertion and its continuation. -/
theorem careful_nextAssertion_belongs_one_continuation :
    ∃ h w, Run simPlatform h w ∧ Careful h ∧ ∃ r h₂, h = .request r :: h₂ ∧ r.Continues ∧
      ∃ g k, .request g ∈ h₂ ∧ r.Belongs simPlatform g k := by
  have heval : (serveAll simPlatform simStart
      (threeCredentials ++ [touched 2 (assertionRequest "a"), touched 8 []])).map
      (fun x => x.2.map fun r => (r.cmd, r.status))
      = some [(8, .ok), (2, .ok), (1, .ok), (1, .ok), (1, .ok)] := by
    decide +kernel
  obtain ⟨⟨w, rs⟩, hrs, hmap⟩ := Option.map_eq_some_iff.mp heval
  have hrun := serveAll_run run_simStart hrs
  have hall : ∀ r ∈ rs, r.status = .ok := by
    intro r hr
    have hmem : (r.cmd, r.status) ∈ rs.map fun r => (r.cmd, r.status) := List.mem_map_of_mem hr
    rw [hmap] at hmem
    simp only [List.mem_cons, Prod.mk.injEq, List.not_mem_nil, or_false] at hmem
    rcases hmem with ⟨-, h⟩ | ⟨-, h⟩ | ⟨-, h⟩ | ⟨-, h⟩ | ⟨-, h⟩ <;> exact h
  have hcare : Careful (rs.map .request ++ [.boot simStart]) := by
    intro h₁ r g h₂ hh _ hfail
    have hg : Entry.request g ∈ rs.map .request ++ [.boot simStart] := by rw [hh]; simp
    simp only [List.mem_append, List.mem_map, List.mem_singleton, reduceCtorEq, or_false,
      Entry.request.injEq, exists_eq_right] at hg
    exact absurd (hall g hg) hfail.2
  obtain ⟨r, rs', rfl, hr, -⟩ := List.map_eq_cons_iff.mp hmap
  simp only [Prod.mk.injEq] at hr
  have hcont : r.Continues := ⟨commandOf_eq_getNextAssertion.mpr hr.1, hr.2⟩
  obtain ⟨nexts, g, h', hh, -, hb⟩ :=
    (careful_nextAssertion_belongs hrun hcare).1 [] r (rs'.map .request ++ [.boot simStart]) rfl hcont
  exact ⟨_, w, hrun, hcare, r, rs'.map .request ++ [.boot simStart], rfl, hcont, g, _, by rw [hh]; simp, hb⟩

/-- The user presence test for RP b fails, but the continuation of the assertion for RP a that
preceded it hands out an assertion for RP b with the UP bit. -/
theorem nextAssertion_behind_failed_assertion :
    ∃ h w, Run simPlatform h w ∧ ∃ r h₂, h = .request r :: h₂ ∧ r.Continues ∧
      (¬ ∃ nexts g h', h₂ = nexts ++ .request g :: h' ∧
        (∀ e ∈ nexts, ∃ r', e = .request r' ∧ r'.Continues) ∧ r.Belongs simPlatform g nexts.length) ∧
      (∃ cred authData hash, .signed cred authData hash ∈ r.events ∧
        authDataFlags authData &&& 1 ≠ 0 ∧ authDataRpIdHash authData = (simSha256 (ascii "b")).toList) ∧
      ∀ r', .request r' ∈ h → r'.request = assertionRequest "b" → .presenceTested true ∉ r'.events := by
  have heval : (serveAll simPlatform simStart (threeCredentials ++ [touched 2 (assertionRequest "a"),
      untouched 2 (assertionRequest "b"), touched 8 []])).map
      (fun x => (x.2.map fun r => (r.cmd, r.status),
        x.2.head?.map fun r => r.after.trace.any fun e => match e with
          | .signed _ authData _ => authDataFlags authData &&& 1 ≠ 0 &&
              authDataRpIdHash authData = (simSha256 (ascii "b")).toList
          | _ => false,
        x.2.all fun r => r.request ≠ assertionRequest "b" || !r.after.trace.contains (.presenceTested true)))
      = some ([(8, .ok), (2, .error .operationDenied), (2, .ok), (1, .ok), (1, .ok), (1, .ok)], some true,
        true) := by
    decide +kernel
  obtain ⟨⟨w, rs⟩, hrs, hall⟩ := Option.map_eq_some_iff.mp heval
  obtain ⟨hmap, hrest⟩ := Prod.mk.inj hall
  obtain ⟨hhead, hpres⟩ := Prod.mk.inj hrest
  obtain ⟨r, rs', rfl, hr, hmap⟩ := List.map_eq_cons_iff.mp hmap
  obtain ⟨g, rs'', rfl, hg, -⟩ := List.map_eq_cons_iff.mp hmap
  simp only [Prod.mk.injEq] at hr hg
  refine ⟨_, w, serveAll_run run_simStart hrs, r, _, rfl,
    ⟨commandOf_eq_getNextAssertion.mpr hr.1, hr.2⟩, ?_, ?_, ?_⟩
  · rintro ⟨nexts, g', h', hh, hnexts, GA, creds, authData, hopens, -⟩
    cases nexts with
    | nil =>
      obtain ⟨hg', -⟩ := List.cons.inj hh
      cases hg'
      exact absurd (hopens.success.symm.trans hg.2) (by simp)
    | cons e nexts =>
      obtain ⟨he, -⟩ := List.cons.inj hh
      obtain ⟨r', hr', hcont⟩ := hnexts e (List.mem_cons_self ..)
      rw [← he] at hr'
      cases hr'
      exact absurd ((commandOf_eq_getNextAssertion.mp hcont.1).symm.trans hg.1) (by decide)
  · simp only [List.head?_cons, Option.map_some, Option.some.injEq, List.any_eq_true] at hhead
    obtain ⟨e, he, hprop⟩ := hhead
    split at hprop
    · rename_i cred authData hash
      simp only [Bool.and_eq_true, decide_eq_true_eq] at hprop
      exact ⟨cred, authData, hash, he, hprop.1, hprop.2⟩
    · cases hprop
  · intro r' hmem hreq hp
    rw [List.all_eq_true] at hpres
    simp only [List.mem_append, List.mem_map, List.mem_singleton, reduceCtorEq, or_false,
      Entry.request.injEq, exists_eq_right] at hmem
    have h := hpres r' hmem
    simp only [hreq, ne_eq, not_true_eq_false, decide_false, Bool.false_or, Bool.not_eq_true',
      List.contains_eq_mem, decide_eq_false_iff_not] at h
    exact h hp

end TkeyFido2
