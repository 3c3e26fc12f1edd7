import TkeyFido2.Ctap.Token

/-!
# One token, one relying party

A token is bound to an RP ID only where it is issued with one.  A token of getPinToken carries none, and
the check of the RP ID passes for it; but such a token is used up by the first operation that the user
confirms by touch.  So only an assertion without user presence leaves it to be used for another RP.
-/

namespace TkeyFido2

open Cbor Prog

/-! ## Between an issuance and the next one -/

/-- An entry that neither issues a token nor resets the device. -/
def Entry.KeepsIssuance (e : Entry) : Prop :=
  ∀ r, e = .request r → r.after.issued = [] ∧ r.resets = false

/-- A makeCredential under a PIN or a user-verified getAssertion that succeeded for an RP ID. -/
structure Served.VerifiedFor (r : Served) (rpId : List UInt8) : Prop where
  success : r.Protected
  demand : ∃ d, r.Demands d ∧ d.rpId = some rpId

section Between

variable {P : Platform}

/-- What a request demands is read from its bytes. -/
theorem Served.Demands.unique {r : Served} {d d' : Demand} (h : r.Demands d) (h' : r.Demands d') :
    d = d' := by
  cases h with
  | makeCredential hc hp =>
    cases h' with
    | makeCredential hc' hp' =>
      cases hp.symm.trans hp'
      rfl
    | getAssertion hc' hp' => cases hc.symm.trans hc'
    | credentialManagement hc' hp' => cases hc.symm.trans hc'
  | getAssertion hc hp =>
    cases h' with
    | makeCredential hc' hp' => cases hc.symm.trans hc'
    | getAssertion hc' hp' =>
      obtain ⟨w, hp⟩ := hp
      obtain ⟨w', hp'⟩ := hp'
      cases hp.symm.trans hp'
      rfl
    | credentialManagement hc' hp' => cases hc.symm.trans hc'
  | credentialManagement hc hp =>
    cases h' with
    | makeCredential hc' hp' => cases hc.symm.trans hc'
    | getAssertion hc' hp' => cases hc.symm.trans hc'
    | credentialManagement hc' hp' =>
      cases hp.symm.trans hp'
      rfl

/-- A record in use allows no more than it did behind any earlier request, unless a token was issued or
the device reset since. -/
theorem Run.within {h₁ h₂ : List Entry} {r : Served} {w : World}
    (hr : Run P (h₁ ++ .request r :: h₂) w) (hkeep : ∀ e ∈ h₁, e.KeepsIssuance)
    (hpos : 0 < w.state.remainingTries) {slot : Slot} (hu : (w.token slot).state.inUse = true) :
    (w.token slot).Within (r.after.token slot) := by
  induction h₁ generalizing w with
  | nil =>
    obtain ⟨-, -, rfl⟩ := hr.of_request
    exact World.Weaker.refl _ slot hu
  | cons e h₁ ih =>
    rw [List.cons_append] at hr
    have hrest : ∀ e ∈ h₁, e.KeepsIssuance := fun e he => hkeep e (List.mem_cons_of_mem _ he)
    generalize hh : e :: (h₁ ++ .request r :: h₂) = h at hr
    cases hr with
    | start hw hb => exact absurd (List.cons.inj hh).2 (by simp)
    | boot hr hb =>
      obtain ⟨-, -, -, -, hst⟩ := hb.of_stored hr.synced.file hr.synced.version
      rw [hst.idle slot] at hu
      cases hu
    | request hr r' hv hb =>
      subst hb
      obtain ⟨rfl, rfl⟩ := List.cons.inj hh
      obtain ⟨hissued, hreset⟩ := hkeep _ List.mem_cons_self r' rfl
      cases hv.tokenEffect with
      | adds hweak _ _ _ _ =>
        have hwithin := hweak hpos slot hu
        exact hwithin.trans (ih hr hrest (hv.tries_pos hreset hpos) hwithin.inUse)
      | idle hidle =>
        rw [hidle slot] at hu
        cases hu
      | issued i hi _ _ =>
        rw [hi.event] at hissued
        cases hissued

/-- The record behind a request that issued a token. -/
theorem Served.Issued.holds {r : Served} {i : Issuance} (hi : r.Issued i) (hv : r.Valid P) {slot : Slot}
    (hu : (r.after.token slot).state.inUse = true) : slot = i.slot ∧ i.Holds P (r.after.token slot) := by
  cases hv.tokenEffect with
  | adds _ hissued _ _ _ =>
    rw [hi.event] at hissued
    cases hissued
  | idle hidle =>
    rw [hidle slot] at hu
    cases hu
  | issued j hj holds others =>
    have hij : i = j := by
      have hevent : i.event = j.event := by simpa using hi.event.symm.trans hj.event
      cases i
      cases j
      simpa [Issuance.event] using hevent
    subst hij
    have hslot : slot = i.slot := by
      by_contra hne
      rw [others slot hne] at hu
      cases hu
    exact ⟨hslot, hslot ▸ holds⟩

/-- A confirmed operation uses up the record that it asks. -/
theorem Served.Valid.spent {r : Served} (hv : r.Valid P) (hconf : r.Confirms) {d : Demand}
    (hd : r.Demands d) : (r.after.token (slotOf d.pinProtocol)).Spent := by
  obtain ⟨w₁, hafter, hrun⟩ := hv.run
  have htok : r.after.token = w₁.token := by rw [hafter]
  rcases hrun with ⟨-, hrun⟩ | ⟨e, herr, -⟩
  · have hcmd := (dispatch_ok hrun).2
    rw [htok]
    rcases hconf.2 with hc | ⟨hc, GA, hparse, hup⟩
    · rw [hc] at hcmd
      obtain ⟨MC, hp, hspent, -⟩ := ctapMakeCredential_ok hcmd
      rwa [hd.unique (.makeCredential hc hp)]
    · rw [hc] at hcmd
      obtain ⟨A⟩ := ctapGetAssertion_ok hcmd
      obtain ⟨w₂, hparse⟩ := hparse
      obtain ⟨rfl, -⟩ : A.GA = GA ∧ A.parsed = w₂ := by simpa using A.parse.symm.trans hparse
      rw [hd.unique (.getAssertion hc ⟨_, hparse⟩)]
      exact A.spent hup
  · have hok := hconf.1
    rw [herr] at hok
    cases hok

/-- An operation for an RP is confirmed, or it is an assertion without user presence. -/
theorem Served.VerifiedFor.confirms {r : Served} {rpId : List UInt8} (h : r.VerifiedFor rpId) :
    r.Confirms ∨ commandOf r.cmd = .getAssertion ∧ ∃ GA, r.ParsesAssertion GA ∧ GA.options.up = .no := by
  obtain ⟨d, hd, hrp⟩ := h.demand
  have hok : r.status = .ok := by cases h.success <;> assumption
  cases hd with
  | makeCredential hc hp => exact .inl ⟨hok, .inl hc⟩
  | @getAssertion GA hc hp =>
    by_cases hup : GA.options.up = .no
    · exact .inr ⟨hc, GA, hp, hup⟩
    · exact .inl ⟨hok, .inr ⟨hc, GA, hp, hup⟩⟩
  | credentialManagement hc hp => cases hrp

end Between

/-! ## The RP IDs of a token -/

section OneRp

variable {P : Platform}

/-- What an operation for an RP ID finds in the record of a token that was issued before. -/
structure FoundUnder (P : Platform) (i : Issuance) (r : Served) (rpId : List UInt8) (d : Demand) : Prop where
  demand : r.Demands d
  permission : d.permission ∈ [permissionMc, permissionGa, permissionCm]
  slot : slotOf d.pinProtocol = i.slot
  allows : (r.before.token i.slot).Allows P d
  tries : 0 < r.before.state.remainingTries
  /-- The RP ID of the token, where it has one. -/
  bound : ∀ rp ∈ i.rpId, P.prims.sha256 rp = P.prims.sha256 rpId

theorem Served.VerifiedFor.found {r ri : Served} {i : Issuance} {rpId : List UInt8} {h₁ h₂ : List Entry}
    {w : World} (h : r.VerifiedFor rpId) (hr : Run P (.request r :: (h₁ ++ .request ri :: h₂)) w)
    (hri : ri.Issued i) (hkeep : ∀ e ∈ h₁, e.KeepsIssuance) : ∃ d, FoundUnder P i r rpId d := by
  obtain ⟨hr, hv, -⟩ := hr.of_request
  obtain ⟨hpos, d, hd, hperm, hallows⟩ := hv.allows h.success
  have hrp : d.rpId = some rpId := by
    obtain ⟨d', hd', hrp⟩ := h.demand
    rwa [hd.unique hd']
  have hwithin := hr.within hkeep hpos hallows.inUse
  have hvi : ri.Valid P := (hr.suffix).of_request.2.1
  obtain ⟨hslot, holds⟩ := hri.holds hvi hwithin.inUse
  refine ⟨d, hd, hperm, hslot, hslot ▸ hallows, hpos, fun rp hmem => ?_⟩
  obtain ⟨hpresent, hhash⟩ := (holds.within hwithin).rpId rp hmem
  exact hhash.symm.trans (hallows.rpId rpId hrp hpresent)

/-- Two operations that succeed under one token are for the same RP ID, unless the token was issued
without one and the earlier operation is an assertion without user presence. -/
theorem one_token_one_rp {h₁ h₂ h₃ : List Entry} {w : World} {r₁ r₂ ri : Served} {i : Issuance}
    {rpId₁ rpId₂ : List UInt8}
    (hr : Run P (.request r₂ :: (h₁ ++ .request r₁ :: (h₂ ++ .request ri :: h₃))) w)
    (hri : ri.Issued i) (hkeep : ∀ e ∈ h₁ ++ .request r₁ :: h₂, e.KeepsIssuance)
    (hr₁ : r₁.VerifiedFor rpId₁) (hr₂ : r₂.VerifiedFor rpId₂) :
    rpId₁ = rpId₂ ∨ Collision P rpId₁ rpId₂ ∨
      i.rpId = none ∧ commandOf r₁.cmd = .getAssertion ∧
        ∃ GA, r₁.ParsesAssertion GA ∧ GA.options.up = .no := by
  obtain ⟨hrun₂, -, -⟩ := hr.of_request
  have hrun₁ := hrun₂.suffix
  obtain ⟨-, hv₁, -⟩ := hrun₁.of_request
  have hr' : Run P (.request r₂ :: ((h₁ ++ .request r₁ :: h₂) ++ .request ri :: h₃)) w := by simpa using hr
  obtain ⟨d₂, f₂⟩ := hr₂.found hr' hri hkeep
  obtain ⟨d₁, f₁⟩ := hr₁.found hrun₁ hri fun e he => hkeep e (by simp [he])
  cases hi : i.rpId with
  | some rp =>
    have hhash : P.prims.sha256 rpId₁ = P.prims.sha256 rpId₂ :=
      (f₁.bound rp hi).symm.trans (f₂.bound rp hi)
    by_cases heq : rpId₁ = rpId₂
    · exact .inl heq
    · exact .inr (.inl ⟨heq, hhash⟩)
  | none =>
    rcases hr₁.confirms with hconf | hup
    · -- a touch used the token up, so nothing can have succeeded behind it
      have hspent : (r₁.after.token i.slot).Spent := f₁.slot ▸ hv₁.spent hconf f₁.demand
      have hwithin := hrun₂.within (fun e he => hkeep e (by simp [he])) f₂.tries f₂.allows.inUse
      exact absurd (hspent.within hwithin) (f₂.allows.not_spent f₂.permission)
    · exact .inr (.inr ⟨rfl, hup⟩)

end OneRp

/-! ## A token without an RP ID -/

/-- It is a user-verified getAssertion that succeeded for an RP ID. -/
def Served.isVerifiedFor (r : Served) (rpId : List UInt8) : Bool :=
  commandOf r.cmd = .getAssertion && r.status = .ok && r.after.issued = [] &&
    (r.events.any fun
      | .signed _ authData _ => authDataFlags authData &&& (4 : UInt8) ≠ 0
      | _ => false) &&
    (match parseGetAssertionRequest r.request (r.before.withInputs r.after.inputs) with
      | .ok GA _ => GA.rp.bytes = rpId
      | .error _ _ => false)

theorem Served.verifiedFor_of_isVerifiedFor {r : Served} {rpId : List UInt8}
    (h : r.isVerifiedFor rpId = true) : r.VerifiedFor rpId ∧ (Entry.request r).KeepsIssuance := by
  unfold Served.isVerifiedFor at h
  simp only [Bool.and_eq_true, decide_eq_true_eq] at h
  obtain ⟨⟨⟨⟨hc, hok⟩, hissued⟩, hany⟩, hparse⟩ := h
  obtain ⟨e, he, hflags⟩ := List.any_eq_true.mp hany
  refine ⟨⟨?_, ?_⟩, ?_⟩
  · split at hflags
    · exact .getAssertion hc hok he (by simpa using hflags)
    · cases hflags
  · split at hparse
    · rename_i GA w hp
      exact ⟨_, .getAssertion hc ⟨w, hp⟩, congrArg some (of_decide_eq_true hparse)⟩
    · cases hparse
  · rintro r' heq
    cases heq
    exact ⟨hissued, by simp [Served.resets, hc]⟩

/-- It is a clientPIN request that issued a token. -/
def Served.issues (r : Served) (i : Issuance) : Bool :=
  commandOf r.cmd = .clientPin && r.status = .ok && r.after.pinChecks = [true] &&
    r.after.issued = [i.event] &&
    (match parseClientPinRequest r.request with
      | .ok CP => CP.subCommand = 5 ∨ CP.subCommand = 9
      | .error _ => false)

theorem Served.issued_of_issues {r : Served} {i : Issuance} (h : r.issues i = true) : r.Issued i := by
  unfold Served.issues at h
  simp only [Bool.and_eq_true, decide_eq_true_eq] at h
  obtain ⟨⟨⟨⟨hc, hok⟩, hchecks⟩, hissued⟩, hsub⟩ := h
  refine ⟨hc, ?_, hok, hchecks, hissued⟩
  split at hsub
  · rename_i CP hp
    exact ⟨CP, hp, of_decide_eq_true hsub⟩
  · cases hsub

/-- The newest three requests: a token is issued and two assertions are made. -/
def usesTwice (i : Issuance) (rpId₁ rpId₂ : List UInt8) : List Served → Bool
  | r₂ :: r₁ :: ri :: _ => r₂.isVerifiedFor rpId₂ && r₁.isVerifiedFor rpId₁ && ri.issues i
  | _ => false

theorem usesTwice_spec {i : Issuance} {rpId₁ rpId₂ : List UInt8} {rs : List Served}
    (h : usesTwice i rpId₁ rpId₂ rs = true) :
    ∃ r₂ r₁ ri rest, rs = r₂ :: r₁ :: ri :: rest ∧ r₂.VerifiedFor rpId₂ ∧ r₁.VerifiedFor rpId₁ ∧
      (Entry.request r₁).KeepsIssuance ∧ ri.Issued i := by
  unfold usesTwice at h
  split at h
  · rename_i r₂ r₁ ri rest
    simp only [Bool.and_eq_true] at h
    obtain ⟨⟨h₂, h₁⟩, hi⟩ := h
    obtain ⟨h₁, hkeep⟩ := Served.verifiedFor_of_isVerifiedFor h₁
    exact ⟨r₂, r₁, ri, rest, rfl, (Served.verifiedFor_of_isVerifiedFor h₂).1, h₁, hkeep,
      Served.issued_of_issues hi⟩
  · cases h

/-- getPinToken. -/
def getPinTokenRequest (pin : String) : List UInt8 :=
  encMap [([1], [1]), ([2], [5]), ([3], simCoseKey),
    ([6], encBytes (simEncrypt ((simSha256 (ascii pin)).slice 0 16)))]

/-- authenticatorGetAssertion without user presence, under the token. -/
def silentAssertionRequest (rpId : String) : List UInt8 :=
  let hash := List.replicate 32 7
  encMap (getAssertionMembersOf rpId hash ++ [([5], encMap [(encString "up", [0xf4])]),
    ([6], simAuth simToken hash), ([7], [1])])

/-- A token of getPinToken as it is issued. -/
def pinTokenIssuance : Issuance := ⟨.p1, simToken, permissionsDefaultMask, none⟩

/-- Credentials of two RPs, and a token of getPinToken that makes an assertion for each of two RPs. -/
def assertTwice (rpId₁ rpId₂ : String) : Option (World × List Served) :=
  serveAll simPlatform simStart [touched 1 (encMap (makeCredentialMembers "a" 1)),
    touched 1 (encMap (makeCredentialMembers "b" 1)), touched 6 (setPinRequest "1234"),
    touched 6 (getPinTokenRequest "1234"), untouched 2 (silentAssertionRequest rpId₁),
    untouched 2 (silentAssertionRequest rpId₂)]

theorem assertTwice_spec {rpId₁ rpId₂ : String}
    (h : (assertTwice rpId₁ rpId₂).map (fun x => usesTwice pinTokenIssuance (ascii rpId₁) (ascii rpId₂) x.2)
      = some true) :
    ∃ h w r₂ r₁ ri, Run simPlatform (.request r₂ :: .request r₁ :: .request ri :: h) w ∧
      ri.Issued pinTokenIssuance ∧ (Entry.request r₁).KeepsIssuance ∧
      r₁.VerifiedFor (ascii rpId₁) ∧ r₂.VerifiedFor (ascii rpId₂) := by
  obtain ⟨⟨w, rs⟩, hrs, huses⟩ := Option.map_eq_some_iff.mp h
  obtain ⟨r₂, r₁, ri, rest, rfl, h₂, h₁, hkeep, hri⟩ := usesTwice_spec huses
  exact ⟨_, w, r₂, r₁, ri, serveAll_run run_simStart hrs, hri, hkeep, h₁, h₂⟩

/-- Both assertions are for RP a. -/
theorem one_token_one_rp_silent_assertions :
    ∃ h w r₂ r₁ ri, Run simPlatform (.request r₂ :: .request r₁ :: .request ri :: h) w ∧
      ri.Issued pinTokenIssuance ∧ (ascii "a" = ascii "a" ∨ Collision simPlatform (ascii "a") (ascii "a") ∨
        pinTokenIssuance.rpId = none ∧ commandOf r₁.cmd = .getAssertion ∧
          ∃ GA, r₁.ParsesAssertion GA ∧ GA.options.up = .no) := by
  obtain ⟨h, w, r₂, r₁, ri, hr, hri, hkeep, h₁, h₂⟩ :=
    @assertTwice_spec "a" "a" (by decide +kernel)
  exact ⟨h, w, r₂, r₁, ri, hr, hri,
    @one_token_one_rp simPlatform [] [] h w r₁ r₂ ri _ _ _ hr hri (by simpa using hkeep) h₁ h₂⟩

/-- One token of getPinToken makes an assertion for RP a and one for RP b. -/
theorem pin_token_serves_two_rps :
    ∃ h w r₂ r₁ ri, Run simPlatform (.request r₂ :: .request r₁ :: .request ri :: h) w ∧
      ri.Issued pinTokenIssuance ∧ (Entry.request r₁).KeepsIssuance ∧
      r₁.VerifiedFor (ascii "a") ∧ r₂.VerifiedFor (ascii "b") ∧ ascii "a" ≠ ascii "b" ∧
      ¬ Collision simPlatform (ascii "a") (ascii "b") := by
  obtain ⟨h, w, r₂, r₁, ri, hr, hri, hkeep, h₁, h₂⟩ :=
    @assertTwice_spec "a" "b" (by decide +kernel)
  exact ⟨h, w, r₂, r₁, ri, hr, hri, hkeep, h₁, h₂, by decide,
    fun hc => absurd hc.2 (by decide +kernel)⟩

end TkeyFido2
