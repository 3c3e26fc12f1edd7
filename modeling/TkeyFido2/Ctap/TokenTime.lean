import Mathlib.Data.List.Chain
import TkeyFido2.Ctap.TokenBinding

/-!
# How long a token is used

That a token has expired is found out only when it is presented: the observer in
`ctap_client_pin_verify_auth_ex` compares the timer with the two readings in the record.  The events of
`Event.isUsage` tell when records were put into use and when they were presented, and the readings in a
record in use are those of its issuance and of the newest call.
-/

namespace TkeyFido2

open Cbor Prog

/-! ## Calls and readings -/

/-- A call of `ctap_client_pin_verify_auth_ex` for a record. -/
def Event.call? (slot : Slot) : Event → Option (Option UInt32)
  | .tokenObserved s now => if s = slot then some now else none
  | _ => none

/-- The reading of the timer in an event. -/
def Event.reading? : Event → Option UInt32
  | .tokenStarted _ now => some now
  | .tokenObserved _ now => now
  | _ => none

/-- The record is put into use. -/
def Event.starts (slot : Slot) : Event → Bool
  | .tokenStarted s _ => s = slot
  | _ => false

def callsOf (slot : Slot) (evs : List Event) : List (Option UInt32) := evs.filterMap (Event.call? slot)

/-- The readings of the timer do not decrease. -/
def ClockRuns (evs : List Event) : Prop := (evs.filterMap Event.reading?).Pairwise (· ≤ ·)

/-- The calls for a token that was issued at `t₀` are at most ten minutes behind the issuance, and each is
at most thirty seconds behind the one before it. -/
structure UsedInTime (t₀ : UInt32) (calls : List UInt32) : Prop where
  total : ∀ t ∈ calls, t.toNat - t₀.toNat ≤ 600000
  steps : (t₀ :: calls).IsChain fun t t' => t'.toNat - t.toNat ≤ 30000

/-- The record was last put into use at `t₀`, for the token that was issued then, and these were the
readings of all calls for it since. -/
def InUseSince (slot : Slot) (evs : List Event) (t₀ : UInt32) (token : Bytes 32) (calls : List UInt32) :
    Prop :=
  ∃ a perms rpId b, evs = a ++ .tokenStarted slot t₀ :: .tokenIssued slot token perms rpId :: b ∧
    (∀ e ∈ b, e.starts slot = false) ∧ callsOf slot b = calls.map some

/-- Every pinUvAuthParam that verified under a record did so in a call in time. -/
def AcceptedInTime (slot : Slot) (evs : List Event) : Prop :=
  ∀ a token message param b, evs = a ++ .tokenVerified slot token message param :: b →
    ∃ t₀ calls t, InUseSince slot a t₀ token (calls ++ [t]) ∧ UsedInTime t₀ (calls ++ [t]) ∧
      a.getLast? = some (.tokenObserved slot (some t))

section Events

variable {slot : Slot} {evs : List Event} {e : Event} {t₀ now : UInt32} {token : Bytes 32}
  {calls : List UInt32}

theorem callsOf_append (evs evs' : List Event) :
    callsOf slot (evs ++ evs') = callsOf slot evs ++ callsOf slot evs' := List.filterMap_append

theorem ClockRuns.left {evs' : List Event} (h : ClockRuns (evs ++ evs')) : ClockRuns evs := by
  unfold ClockRuns at h
  rw [List.filterMap_append] at h
  exact (List.pairwise_append.mp h).1

/-- An earlier reading. -/
theorem ClockRuns.le (h : ClockRuns (evs ++ [e])) {t : UInt32} (ht : t ∈ evs.filterMap Event.reading?)
    (he : e.reading? = some now) : t ≤ now := by
  unfold ClockRuns at h
  rw [List.filterMap_append] at h
  exact (List.pairwise_append.mp h).2.2 t ht now (by simp [he])

theorem UsedInTime.nil : UsedInTime t₀ [] := ⟨by simp, List.isChain_singleton _⟩

/-- One more call in time. -/
theorem UsedInTime.snoc (h : UsedInTime t₀ calls) (ht : now.toNat - t₀.toNat ≤ 600000)
    (hl : now.toNat - (calls.getLastD t₀).toNat ≤ 30000) : UsedInTime t₀ (calls ++ [now]) := by
  refine ⟨fun t hmem => ?_, ?_⟩
  · rcases List.mem_append.mp hmem with hmem | hmem
    · exact h.total t hmem
    · rw [List.mem_singleton.mp hmem]
      exact ht
  · rw [← List.cons_append, List.isChain_append]
    refine ⟨h.steps, List.isChain_singleton _, fun x hx y hy => ?_⟩
    rw [List.getLast?_cons, Option.mem_some_iff] at hx
    obtain rfl : now = y := by simpa using hy
    subst hx
    rwa [List.getLastD_eq_getLast?] at hl

theorem InUseSince.append (h : InUseSince slot evs t₀ token calls) (hs : e.starts slot = false)
    (hc : e.call? slot = none) : InUseSince slot (evs ++ [e]) t₀ token calls := by
  obtain ⟨a, perms, rpId, b, rfl, hb, hcalls⟩ := h
  refine ⟨a, perms, rpId, b ++ [e], by simp, fun e' he' => ?_, ?_⟩
  · rcases List.mem_append.mp he' with he' | he'
    · exact hb e' he'
    · rw [List.mem_singleton.mp he']
      exact hs
  · rw [callsOf_append, hcalls]
    simp [callsOf, hc]

theorem InUseSince.call (h : InUseSince slot evs t₀ token calls) :
    InUseSince slot (evs ++ [.tokenObserved slot (some now)]) t₀ token (calls ++ [now]) := by
  obtain ⟨a, perms, rpId, b, rfl, hb, hcalls⟩ := h
  refine ⟨a, perms, rpId, b ++ [.tokenObserved slot (some now)], by simp, fun e' he' => ?_, ?_⟩
  · rcases List.mem_append.mp he' with he' | he'
    · exact hb e' he'
    · rw [List.mem_singleton.mp he']
      rfl
  · rw [callsOf_append, hcalls]
    simp [callsOf, Event.call?]

/-- The readings of the issuance and of the calls. -/
theorem InUseSince.readings (h : InUseSince slot evs t₀ token calls) :
    ∀ t ∈ t₀ :: calls, t ∈ evs.filterMap Event.reading? := by
  obtain ⟨a, perms, rpId, b, rfl, -, hcalls⟩ := h
  intro t ht
  rw [List.filterMap_append, List.mem_append]
  right
  rcases List.mem_cons.mp ht with rfl | ht
  · simp [Event.reading?]
  · have hmem : some t ∈ callsOf slot b := by
      rw [hcalls]
      exact List.mem_map_of_mem ht
    obtain ⟨e, he, hcall⟩ := List.mem_filterMap.mp hmem
    have hread : e.reading? = some t := by
      cases e <;> simp [Event.call?, Event.reading?] at hcall ⊢
      exact hcall.2
    simp only [List.filterMap_cons, Event.reading?, List.mem_cons, List.mem_filterMap]
    exact .inr ⟨e, he, hread⟩

theorem AcceptedInTime.append (h : AcceptedInTime slot evs)
    (he : ∀ token message param, e ≠ .tokenVerified slot token message param) :
    AcceptedInTime slot (evs ++ [e]) := by
  intro a token message param b heq
  rcases List.eq_nil_or_concat b with rfl | ⟨b, e', rfl⟩
  · obtain ⟨-, hlast⟩ := List.append_inj' heq rfl
    exact absurd (List.singleton_inj.mp hlast) (he _ _ _)
  · rw [List.concat_eq_append, ← List.cons_append, ← List.append_assoc] at heq
    exact h a token message param b (List.append_inj' heq rfl).1

theorem AcceptedInTime.verified (h : AcceptedInTime slot evs) {message param : List UInt8}
    (hin : InUseSince slot evs t₀ token (calls ++ [now])) (ht : UsedInTime t₀ (calls ++ [now]))
    (hlast : evs.getLast? = some (.tokenObserved slot (some now))) :
    AcceptedInTime slot (evs ++ [.tokenVerified slot token message param]) := by
  intro a token' message' param' b heq
  rcases List.eq_nil_or_concat b with rfl | ⟨b, e', rfl⟩
  · obtain ⟨rfl, hv⟩ := List.append_inj' heq rfl
    cases hv
    exact ⟨t₀, calls, now, hin, ht, hlast⟩
  · rw [List.concat_eq_append, ← List.cons_append, ← List.append_assoc] at heq
    exact h a token' message' param' b (List.append_inj' heq rfl).1

end Events

/-! ## The observer -/

section Observer

variable {w : World} {slot : Slot}

/-- The observer changes one record; it stays in use only where both differences are small enough. -/
theorem usageTimeObserver_ends : Ends (usageTimeObserver slot) w (fun _ w' => ∃ x s,
    w'.usage = w.usage ++ [.tokenObserved slot x] ∧ w'.state = w.state ∧
      w'.token = Function.update w.token slot { w.token slot with state := s } ∧
      (s.inUse = true → ∃ now, x = some now ∧ (w.token slot).state.inUse = true ∧
        now - (w.token slot).state.usageTimerStartMs ≤ tokenMaxUsagePeriodMs ∧
        now - (w.token slot).state.usageTimerLastUsedMs ≤ tokenMaxUserPresentMs ∧
        s.usageTimerStartMs = (w.token slot).state.usageTimerStartMs ∧ s.usageTimerLastUsedMs = now))
    fun _ _ => False := by
  have husage (x : Option UInt32) : (w.trace ++ [Event.tokenObserved slot x]).filter Event.isUsage
      = w.usage ++ [.tokenObserved slot x] := by
    rw [List.filter_append]
    rfl
  unfold usageTimeObserver
  rw [ends_bind, ends_get, ends_ite]
  refine ⟨fun hu => ?_, fun hu => ?_⟩
  · rw [ends_bind]
    let now := w.inputs.millis w.millisPos
    let w₁ : World := { w with millisPos := w.millisPos + 1 }
    refine ends_of_ok (show millis w = .ok now w₁ from rfl) ?_
    rw [ends_bind, ends_emit]
    let w₂ : World := { w₁ with trace := w.trace ++ [.tokenObserved slot (some now)] }
    show Ends _ w₂ _ _
    simp only [ends_bind, ends_get, ends_onlyIf, ends_ite, stopUsingPinUvAuthToken,
      clientPinClearUserPresent, clearInUse, ends_modify]
    refine ⟨fun hmax => ⟨fun _ => ⟨fun _ => ?_, fun _ => ?_⟩, fun _ => ⟨fun _ => ?_, fun _ => ?_⟩⟩,
      fun hmax => ⟨fun _ => ⟨fun _ => ?_, fun hlast => ?_⟩, fun _ => ⟨fun _ => ?_, fun hlast => ?_⟩⟩⟩
    all_goals
      simp only [World.modifyTokenState, World.setToken, Function.update_self, Function.update_idem,
        Bool.false_eq_true, if_false, if_pos (show (w₂.token slot).state.inUse = true from hu)] at *
    -- the longest time is over, and the timers are those of a record that is not in use
    · exact ⟨some now, {}, husage _, rfl, rfl, fun h => by cases h⟩
    · exact ⟨some now, { usageTimerLastUsedMs := now }, husage _, rfl, rfl, fun h => by cases h⟩
    · exact ⟨some now, {}, husage _, rfl, rfl, fun h => by cases h⟩
    · exact ⟨some now, { usageTimerLastUsedMs := now }, husage _, rfl, rfl, fun h => by cases h⟩
    · exact ⟨some now, {}, husage _, rfl, rfl, fun h => by cases h⟩
    · exact ⟨some now, { (w.token slot).state with userPresent := false, usageTimerLastUsedMs := now },
        husage _, rfl, rfl, fun _ => ⟨now, rfl, hu, UInt32.not_lt.mp hmax, UInt32.not_lt.mp hlast, rfl, rfl⟩⟩
    · exact ⟨some now, {}, husage _, rfl, rfl, fun h => by cases h⟩
    · exact ⟨some now, { (w.token slot).state with usageTimerLastUsedMs := now },
        husage _, rfl, rfl, fun _ => ⟨now, rfl, hu, UInt32.not_lt.mp hmax, UInt32.not_lt.mp hlast, rfl, rfl⟩⟩
  · rw [ends_emit]
    refine ⟨none, (w.token slot).state, husage none, rfl, by simp, fun h => absurd h hu⟩

end Observer

/-! ## Records in time -/

/-- Unless the clock goes back: what verified under the record was in time, and the record in use holds
the readings of its issuance and of the newest call. -/
def RecordTimed (slot : Slot) (evs : List Event) (t : PinUvAuthToken) (tries : Int8) : Prop :=
  ClockRuns evs → AcceptedInTime slot evs ∧ (0 < tries → t.state.inUse = true →
    ∃ calls, InUseSince slot evs t.state.usageTimerStartMs t.token calls ∧
      UsedInTime t.state.usageTimerStartMs calls ∧
      t.state.usageTimerLastUsedMs = calls.getLastD t.state.usageTimerStartMs)

/-- The record of a slot, with the events before the request. -/
def World.InTime (slot : Slot) (evs : List Event) (w : World) : Prop :=
  RecordTimed slot (evs ++ w.usage) (w.token slot) w.state.remainingTries

section InTime

variable {P : Platform} {w w' : World} {slot s' : Slot} {evs : List Event}

/-- The record changes in nothing that matters, or is no longer in use. -/
theorem World.InTime.mono (h : w.InTime slot evs) (husage : w'.usage = w.usage)
    (hkeep : 0 < w'.state.remainingTries → (w'.token slot).state.inUse = true →
      0 < w.state.remainingTries ∧ (w.token slot).state.inUse = true ∧
      (w'.token slot).token = (w.token slot).token ∧
      (w'.token slot).state.usageTimerStartMs = (w.token slot).state.usageTimerStartMs ∧
      (w'.token slot).state.usageTimerLastUsedMs = (w.token slot).state.usageTimerLastUsedMs) :
    w'.InTime slot evs := by
  intro hclock
  rw [husage] at hclock ⊢
  obtain ⟨hacc, hrec⟩ := h hclock
  refine ⟨hacc, fun hpos hu => ?_⟩
  obtain ⟨hpos', hu', htok, hstart, hlast⟩ := hkeep hpos hu
  rw [htok, hstart, hlast]
  exact hrec hpos' hu'

/-- The parts that do not matter. -/
def timeFreeParts : List Part :=
  [.stateFile, .journal, .counter, .rkFiles, .rkChanges, .rkStored, .identity, .keys, .boot, .ga, .cm, .upDisabled, .inputs,
    .pinChecks, .issued, .verified, .hmacOutputs, .signatures, .assertionEvents, .fixed]

theorem ignores_inTime : Ignores timeFreeParts (World.InTime slot evs) := by
  intro w w' hv h
  have htok : w'.token = w.token := hv .token (by decide)
  have htries : w'.state.remainingTries = w.state.remainingTries :=
    congrArg (fun x : UInt8 × Int8 × Bytes 16 × Bytes 16 => x.2.1) (hv .pinState (by decide))
  refine h.mono (hv .usage (by decide)) fun hpos hu => ?_
  rw [htok] at hu ⊢
  exact ⟨htries ▸ hpos, hu, rfl, rfl, rfl⟩

theorem preserves_inTime {α : Type} {m : CtapM α} {S : List Part} (hm : Touches S m)
    (hS : S ⊆ timeFreeParts) : Preserves (World.InTime slot evs) m := ignores_inTime.preserves hm hS

/-- One record is replaced. -/
theorem inTime_setToken {t : PinUvAuthToken} (h : w.InTime slot evs)
    (hkeep : t.state.inUse = true → (w.token s').state.inUse = true ∧ t.token = (w.token s').token ∧
      t.state.usageTimerStartMs = (w.token s').state.usageTimerStartMs ∧
      t.state.usageTimerLastUsedMs = (w.token s').state.usageTimerLastUsedMs) :
    (w.setToken s' t).InTime slot evs := by
  refine h.mono rfl fun hpos hu => ?_
  by_cases hs : slot = s'
  · subst hs
    simp only [World.setToken, Function.update_self] at hu ⊢
    exact ⟨hpos, hkeep hu⟩
  · have htok : (w.setToken s' t).token slot = w.token slot := Function.update_of_ne hs _ _
    rw [htok] at hu ⊢
    exact ⟨hpos, hu, rfl, rfl, rfl⟩

theorem inTime_stateOnly {f : TokenState → TokenState} (h : w.InTime slot evs)
    (hf : ∀ s, (f s).inUse = true → s.inUse = true ∧ (f s).usageTimerStartMs = s.usageTimerStartMs ∧
      (f s).usageTimerLastUsedMs = s.usageTimerLastUsedMs) : (w.modifyTokenState s' f).InTime slot evs :=
  inTime_setToken h fun hu => ⟨(hf _ hu).1, rfl, (hf _ hu).2⟩

/-! ### A call of `ctap_client_pin_verify_auth_ex` -/

/-- The record behind the observer: where it is still in use, the call was in time. -/
theorem observed_inTime (h : w.InTime slot evs) (hpos : 0 < w.state.remainingTries) {now : UInt32}
    (husage : w'.usage = w.usage ++ [.tokenObserved slot (some now)])
    (hclock : ClockRuns (evs ++ w'.usage)) (hu : (w.token slot).state.inUse = true)
    (hmax : now - (w.token slot).state.usageTimerStartMs ≤ tokenMaxUsagePeriodMs)
    (hlast : now - (w.token slot).state.usageTimerLastUsedMs ≤ tokenMaxUserPresentMs) :
    ∃ calls, InUseSince slot (evs ++ w'.usage) (w.token slot).state.usageTimerStartMs
        (w.token slot).token (calls ++ [now]) ∧
      UsedInTime (w.token slot).state.usageTimerStartMs (calls ++ [now]) := by
  rw [husage, ← List.append_assoc] at hclock ⊢
  obtain ⟨calls, hin, htime, hread⟩ := (h hclock.left).2 hpos hu
  have hle {t : UInt32} (ht : t ∈ (w.token slot).state.usageTimerStartMs :: calls) : t ≤ now :=
    hclock.le (hin.readings t ht) rfl
  have hdiff {t m : UInt32} (ht : t ≤ now) (hm : now - t ≤ m) : now.toNat - t.toNat ≤ m.toNat := by
    rw [← UInt32.toNat_sub_of_le _ _ ht]
    exact hm
  refine ⟨calls, hin.call, htime.snoc (hdiff (hle List.mem_cons_self) hmax) ?_⟩
  rw [← hread]
  refine hdiff (hle ?_) hlast
  rw [hread, List.getLastD_eq_getLast?]
  cases hc : calls.getLast? with
  | none => exact List.mem_cons_self
  | some t => exact List.mem_cons_of_mem _ (List.mem_of_getLast? hc)

/-- Behind the observer a record in use was called in time just now. -/
def CalledInTime (slot : Slot) (evs : List Event) (t : PinUvAuthToken) : Prop :=
  ∃ calls now, InUseSince slot evs t.state.usageTimerStartMs t.token (calls ++ [now]) ∧
    UsedInTime t.state.usageTimerStartMs (calls ++ [now]) ∧
    evs.getLast? = some (.tokenObserved slot (some now)) ∧ t.state.usageTimerLastUsedMs = now

theorem usageTimeObserver_inTime (h : w.InTime slot evs) (hpos : 0 < w.state.remainingTries) :
    Ends (usageTimeObserver s') w (fun _ w' => w'.InTime slot evs ∧ 0 < w'.state.remainingTries ∧
      (s' = slot → ClockRuns (evs ++ w'.usage) → (w'.token slot).state.inUse = true →
        CalledInTime slot (evs ++ w'.usage) (w'.token slot))) fun _ _ => False := by
  refine usageTimeObserver_ends.mono (fun _ w' ⟨x, s, husage, hstate, htok, hs⟩ => ?_) fun _ _ h => h
  have hpos' : 0 < w'.state.remainingTries := by rw [hstate]; exact hpos
  have hassoc : evs ++ w'.usage = (evs ++ w.usage) ++ [.tokenObserved s' x] := by
    rw [husage, List.append_assoc]
  have hacc (hclock : ClockRuns (evs ++ w'.usage)) : AcceptedInTime slot (evs ++ w'.usage) := by
    rw [hassoc] at hclock ⊢
    exact (h hclock.left).1.append fun _ _ _ => by simp
  by_cases hslot : s' = slot
  · subst hslot
    have hcalled (hclock : ClockRuns (evs ++ w'.usage)) (hu : (w'.token s').state.inUse = true) :
        CalledInTime s' (evs ++ w'.usage) (w'.token s') := by
      rw [htok, Function.update_self] at hu ⊢
      obtain ⟨now, rfl, hu₀, hmax, hlast, hstart, hnow⟩ := hs hu
      obtain ⟨calls, hin, htime⟩ := observed_inTime h hpos husage hclock hu₀ hmax hlast
      rw [← hstart] at hin htime
      exact ⟨calls, now, hin, htime, by rw [hassoc, List.getLast?_concat], hnow⟩
    refine ⟨fun hclock => ⟨hacc hclock, fun _ hu => ?_⟩, hpos', fun _ => hcalled⟩
    obtain ⟨calls, now, hin, htime, -, hnow⟩ := hcalled hclock hu
    exact ⟨calls ++ [now], hin, htime, by rw [List.getLastD_concat]; exact hnow⟩
  · have hsame : w'.token slot = w.token slot := by
      rw [htok, Function.update_of_ne fun heq => hslot heq.symm]
    refine ⟨fun hclock => ⟨hacc hclock, fun _ hu => ?_⟩, hpos', fun heq => absurd heq hslot⟩
    rw [hsame] at hu ⊢
    rw [hassoc] at hclock ⊢
    obtain ⟨calls, hin, htime, hread⟩ := (h hclock.left).2 hpos hu
    exact ⟨calls, hin.append rfl (by simp [Event.call?, hslot]), htime, hread⟩

theorem inTime_clientPinVerifyAuthEx {param : Bytes 32} {buf : List UInt8} {proto : UInt8} :
    Preserves (fun w => w.InTime slot evs ∧ 0 < w.state.remainingTries)
      (clientPinVerifyAuthEx P param buf proto) := by
  rw [preserves_iff_ends]
  rintro w ⟨h, hpos⟩
  unfold clientPinVerifyAuthEx
  rw [ends_bind]
  refine (usageTimeObserver_inTime h hpos).mono (fun _ w₁ ⟨h₁, hpos₁, hcalled⟩ => ?_) fun _ _ h => h.elim
  simp only [ends_bind, ends_get, ends_failIf, ends_emit]
  refine ⟨fun _ => ⟨h₁, hpos₁⟩, fun hu => ⟨fun _ => ⟨h₁, hpos₁⟩, fun _ => ⟨?_, hpos₁⟩⟩⟩
  let e : Event := .tokenVerified (slotOf proto) (w₁.token (slotOf proto)).token buf
    (param.toList.take (authParamSize proto))
  have husage : evs ++ (w₁.trace ++ [e]).filter Event.isUsage = (evs ++ w₁.usage) ++ [e] := by
    rw [List.filter_append, List.append_assoc]
    rfl
  show RecordTimed slot (evs ++ (w₁.trace ++ [e]).filter Event.isUsage) (w₁.token slot) _
  rw [husage]
  intro hclock
  obtain ⟨hacc, hrec⟩ := h₁ hclock.left
  refine ⟨?_, fun hpos hu => ?_⟩
  · by_cases hslot : slotOf proto = slot
    · obtain ⟨calls, now, hin, htime, hlast, -⟩ := hcalled hslot hclock.left (hslot ▸ not_not.mp hu)
      show AcceptedInTime slot (_ ++ [.tokenVerified (slotOf proto) (w₁.token (slotOf proto)).token _ _])
      rw [hslot]
      exact hacc.verified hin htime hlast
    · exact hacc.append fun _ _ _ heq => hslot (Event.tokenVerified.inj heq).1
  · obtain ⟨calls, hin, htime, hread⟩ := hrec hpos hu
    exact ⟨calls, hin.append rfl rfl, htime, hread⟩

/-! ### The functions that write records -/

theorem inTime_clearInUse {f : TokenState → TokenState}
    (hf : ∀ s, (f s).inUse = s.inUse ∧ (f s).usageTimerStartMs = s.usageTimerStartMs ∧
      (f s).usageTimerLastUsedMs = s.usageTimerLastUsedMs) :
    Preserves (World.InTime slot evs) (clearInUse s' f) := by
  refine preserves_modify fun w h => ?_
  split
  · exact inTime_stateOnly h fun s hu => ⟨(hf s).1 ▸ hu, (hf s).2⟩
  · exact h

theorem inTime_clearPinFlags : Preserves (World.InTime slot evs) (clearPinFlags s') := by
  have hpresent : Preserves (World.InTime slot evs) (clientPinClearUserPresent s') :=
    inTime_clearInUse fun _ => ⟨rfl, rfl, rfl⟩
  have hverified : Preserves (World.InTime slot evs) (clientPinClearUserVerified s') :=
    inTime_clearInUse fun _ => ⟨rfl, rfl, rfl⟩
  have hperms : Preserves (World.InTime slot evs) (clientPinClearPermissionsExceptLbw s') :=
    inTime_clearInUse fun _ => ⟨rfl, rfl, rfl⟩
  exact hpresent.bind fun _ => hverified.bind fun _ => hperms

theorem inTime_regenerateKeyAgreement : Preserves (World.InTime slot evs) (regenerateKeyAgreement s') :=
  preserves_get.bind fun _ => (preserves_inTime touches_drawScalar (by decide)).bind fun _ =>
    preserves_modify fun _ h => inTime_setToken h fun hu => ⟨hu, rfl, rfl, rfl⟩

theorem inTime_getKeyAgreement {proto : UInt8} :
    Preserves (World.InTime slot evs) (getKeyAgreement P proto) := by
  refine preserves_encode.bind fun _ => preserves_encode.bind fun _ => preserves_get.bind fun _ =>
    (preserves_onlyIf ?_).bind fun _ => preserves_get.bind fun _ => preserves_encode.bind fun _ =>
    preserves_encode.bind fun _ => preserves_pure
  exact preserves_get.bind fun _ => (preserves_inTime touches_drawing (by decide)).bind fun _ =>
    preserves_modify fun _ h => inTime_setToken h fun hu => ⟨hu, rfl, rfl, rfl⟩

/-- Fewer attempts: where none is left the records are not read. -/
theorem inTime_decrementPinAttempts :
    Preserves (World.InTime slot evs) (decrementPinAttempts P) := by
  rw [preserves_iff_ends]
  intro w h
  have hboot : (if 0 < w.pinBootAttemptsLeft then
      { w with pinBootAttemptsLeft := w.pinBootAttemptsLeft - 1 } else w).InTime slot evs := by
    split
    · exact h
    · exact h
  unfold decrementPinAttempts
  rw [ends_bind, ends_modify, ends_bind, ends_get, ends_ite]
  generalize (if 0 < w.pinBootAttemptsLeft then
      { w with pinBootAttemptsLeft := w.pinBootAttemptsLeft - 1 } else w) = w₁ at hboot
  refine ⟨fun hopen => ?_, fun _ => hboot⟩
  have hpos : 0 < w₁.state.remainingTries := by simpa [clientPinIsLocked] using hopen
  rw [ends_bind, ends_modify, ends_bind]
  refine ends_of_ok (authenticatorWriteState_eq _) ?_
  rw [ends_bind, ends_get, ends_ite]
  have husage (v : World) : (v.flushed P).usage = v.usage := flushed_view (p := .usage) (by decide)
  refine ⟨fun hlock => ?_, fun _ => hboot.mono (husage _) fun _ hu => ⟨hpos, hu, rfl, rfl, rfl⟩⟩
  refine ends_of_ok (authenticatorWriteState_eq _)
    (hboot.mono ((husage _).trans (husage _)) fun hpos' _ => ?_)
  have hle : w₁.state.remainingTries - 1 ≤ 0 := of_decide_eq_true hlock
  exact absurd hpos' (by
    show ¬ 0 < w₁.state.remainingTries - 1
    rw [Int8.not_lt]
    exact hle)

theorem inTime_pinMismatch {α : Type} {proto : UInt8} :
    Preserves (World.InTime slot evs) (pinMismatch P proto : CtapM α) :=
  inTime_regenerateKeyAgreement.bind fun _ => inTime_decrementPinAttempts.bind fun _ =>
    preserves_get.bind fun _ => preserves_failIf.bind fun _ => preserves_get.bind fun _ =>
    preserves_failIf.bind fun _ => preserves_throw

theorem inTime_storePin {pin : List UInt8} : Preserves (World.InTime slot evs) (storePin P pin) :=
  (preserves_inTime touches_ctapGenerateRng (by decide)).bind fun _ =>
    Preserves.bind (preserves_modify fun _ h => h.mono rfl fun hpos hu => ⟨hpos, hu, rfl, rfl, rfl⟩) fun _ =>
    preserves_inTime touches_authenticatorWriteState (by decide)

/-- Behind a correct PIN no record is in use. -/
theorem inTime_matched {α : Type} {k : Unit → CtapM α}
    (hk : Preserves (World.InTime slot evs) (k ())) : Preserves (World.InTime slot evs)
      (resetPinAttempts P >>= fun _ => resetPinUvAuthToken .p1 >>= fun _ => resetPinUvAuthToken .p2 >>= k) := by
  rw [preserves_iff_ends]
  intro w h
  obtain ⟨w₁, hok⟩ := resetPinAttempts_ok (P := P) w
  have husage : w₁.usage = w.usage := (touches_resetPinAttempts .usage (by decide)).ok hok
  rw [ends_bind]
  refine ends_of_ok hok ?_
  rw [ends_bind]
  refine ends_of_ok (resetPinUvAuthToken_eq .p1 w₁) ?_
  rw [ends_bind]
  refine ends_of_ok (resetPinUvAuthToken_eq .p2 _) ?_
  have hnew : w₁.withNewTokens.InTime slot evs := h.mono husage fun _ hu => by
    rw [withNewTokens_idle w₁ slot] at hu
    cases hu
  exact hk.ends hnew

/-- A record is put into use for the token that is issued. -/
theorem inTime_issue {perms : UInt8} {rpId : List UInt8} {rp : Option (List UInt8)}
    (h : w.InTime slot evs) :
    let w₁ := (w.beginUsing s' perms).associate P s' rpId
    World.InTime slot evs { w₁ with
      trace := w₁.trace ++ [.tokenIssued s' (w₁.token s').token perms rp] } := by
  intro w₁
  let now := w.inputs.millis w.millisPos
  have htrace : w₁.trace = w.trace ++ [.tokenStarted s' now] := by
    show (World.associate P _ s' rpId).trace = _
    unfold World.associate
    split <;> rfl
  have htok : ∃ s, w₁.token = Function.update w.token s' { w.token s' with state := s } ∧
      s.usageTimerStartMs = now ∧ s.usageTimerLastUsedMs = now := by
    show ∃ s, (World.associate P _ s' rpId).token = _ ∧ _
    unfold World.associate
    split
    · exact ⟨_, rfl, rfl, rfl⟩
    · simp only [World.beginUsing, World.modifyTokenState, World.setToken, Function.update_idem,
        Function.update_self]
      exact ⟨_, rfl, rfl, rfl⟩
  have htries : w₁.state = w.state := by
    show (World.associate P _ s' rpId).state = _
    unfold World.associate
    split <;> rfl
  obtain ⟨s, htok, hstart, hlast⟩ := htok
  have husage : evs ++ (w₁.trace ++ [Event.tokenIssued s' (w₁.token s').token perms rp]).filter Event.isUsage
      = (evs ++ w.usage) ++ [.tokenStarted s' now] ++ [.tokenIssued s' (w₁.token s').token perms rp] := by
    rw [htrace]
    simp [World.usage, Event.isUsage]
  show RecordTimed slot (evs ++ (w₁.trace ++ [_]).filter Event.isUsage) (w₁.token slot) w₁.state.remainingTries
  rw [husage, htries]
  intro hclock
  obtain ⟨hacc, hrec⟩ := h hclock.left.left
  refine ⟨(hacc.append fun _ _ _ => by simp).append fun _ _ _ => by simp, fun hpos hu => ?_⟩
  by_cases hslot : slot = s'
  · subst hslot
    rw [htok, Function.update_self] at hu ⊢
    rw [hstart, hlast]
    exact ⟨[], ⟨evs ++ w.usage, perms, rp, [], by simp, by simp, rfl⟩, .nil, rfl⟩
  · rw [htok, Function.update_of_ne hslot] at hu ⊢
    obtain ⟨calls, hin, htime, hread⟩ := hrec hpos hu
    have hne : s' ≠ slot := fun heq => hslot heq.symm
    exact ⟨calls, (hin.append (by simp [Event.starts, hne]) rfl).append rfl rfl, htime, hread⟩

theorem inTime_addEncPinUvAuthToken {pub : Bytes 64} {h : Bytes 32} {proto perms : UInt8}
    {rpId : List UInt8} :
    Preserves (World.InTime slot evs) (addEncPinUvAuthToken P pub h proto perms rpId) := by
  refine (preserves_inTime touches_ecdh (by decide)).bind fun (key, _) => preserves_ctapCheck.bind fun _ =>
    (preserves_inTime touches_verifyAgainstStoredPin (by decide)).bind fun _ =>
    preserves_ite (fun _ => inTime_matched ?_) fun _ => inTime_pinMismatch
  rw [preserves_iff_ends]
  intro w hw
  rw [ends_bind]
  refine ends_of_ok (show beginUsingPinUvAuthToken false (slotOf proto) perms w
    = .ok () (w.beginUsing (slotOf proto) perms) from rfl) ?_
  rw [ends_bind]
  refine ends_of_ok (associatePermissionsRpId_eq _ (slotOf proto) rpId) ?_
  rw [ends_bind, ends_get, ends_bind, ends_emit]
  exact (preserves_inTime touches_encryptPinUvAuthToken (by decide)).ends (inTime_issue hw)

theorem inTime_updatePinIfVerified {n : Bytes 80} {len : UInt8} {pub : Bytes 64} {a : Bytes 32}
    {pinHash : Option (Bytes 32)} {proto : UInt8} :
    Preserves (World.InTime slot evs) (updatePinIfVerified P n len pub a pinHash proto) := by
  refine preserves_failIf.bind fun _ => (preserves_inTime touches_ecdh (by decide)).bind fun (key, _) =>
    preserves_failIf.bind fun _ => preserves_ctapCheck.bind fun _ => preserves_failIf.bind fun _ =>
    Preserves.bind ?_ fun _ => inTime_storePin
  cases pinHash with
  | none => exact preserves_pure
  | some h =>
    refine preserves_get.bind fun _ => preserves_onlyIf (preserves_ctapCheck.bind fun _ =>
      (preserves_inTime touches_verifyAgainstStoredPin (by decide)).bind fun _ =>
      preserves_ite (fun _ => ?_) fun _ => inTime_pinMismatch)
    exact inTime_matched (k := pure) preserves_pure

theorem inTime_ctapClientPin {request : List UInt8} :
    Preserves (World.InTime slot evs) (ctapClientPin P request) := by
  have hissue {CP : ClientPin} {perms : UInt8} {rpId : List UInt8} :
      Preserves (World.InTime slot evs) (issueToken P CP perms rpId) :=
    preserves_encode.bind fun _ => preserves_encode.bind fun _ => inTime_addEncPinUvAuthToken.bind fun _ =>
      preserves_encode.bind fun _ => preserves_encode.bind fun _ => preserves_pure
  refine preserves_ctapCheck.bind fun _ => preserves_failIf.bind fun _ => preserves_failIf.bind fun _ => ?_
  refine preserves_ite (fun _ => preserves_inTime touches_getPinRetries (by decide)) fun _ => ?_
  refine preserves_ite (fun _ => inTime_getKeyAgreement) fun _ => ?_
  refine preserves_ite (fun _ => ?_) fun _ => ?_
  · exact preserves_failIf.bind fun _ => preserves_get.bind fun _ => preserves_failIf.bind fun _ =>
      inTime_updatePinIfVerified.bind fun _ => preserves_pure
  refine preserves_get.bind fun _ => preserves_failIf.bind fun _ => preserves_get.bind fun _ =>
    preserves_failIf.bind fun _ => ?_
  refine preserves_ite (fun _ => ?_) fun _ => preserves_ite (fun _ => ?_) fun _ =>
    preserves_ite (fun _ => ?_) fun _ => preserves_throw
  · exact preserves_get.bind fun _ => preserves_failIf.bind fun _ => preserves_failIf.bind fun _ =>
      inTime_updatePinIfVerified.bind fun _ => preserves_pure
  · exact preserves_get.bind fun _ => preserves_failIf.bind fun _ => preserves_failIf.bind fun _ =>
      preserves_failIf.bind fun _ => hissue
  · exact preserves_get.bind fun _ => preserves_failIf.bind fun _ => preserves_failIf.bind fun _ =>
      preserves_failIf.bind fun _ => preserves_failIf.bind fun _ => preserves_failIf.bind fun _ => hissue

/-- A reset takes every record out of use. -/
theorem inTime_ctapReset : Preserves (World.InTime slot evs) (ctapReset P) := by
  rw [preserves_iff_ends]
  intro w h
  refine (ctapReset_ends w).mono (fun _ w' hreset => ?_) fun _ w' hview => ?_
  · refine h.mono (hreset.others .usage (by decide)) fun _ hu => ?_
    rw [hreset.idle slot] at hu
    cases hu
  · exact (ignores_inTime.mono (by decide)) w w' hview h

/-- The commands that check a pinUvAuthParam are refused where the PIN is locked. -/
theorem inTime_dispatch {c : Command} {request : List UInt8} :
    Preserves (World.InTime slot evs) (dispatch P c request) := by
  have hlive : Ignores authFreeParts fun w => w.InTime slot evs ∧ 0 < w.state.remainingTries := by
    intro w w' hv hw
    have htries : w'.state.remainingTries = w.state.remainingTries :=
      congrArg (fun x : UInt8 × Int8 × Bytes 16 × Bytes 16 => x.2.1) (hv .pinState (by decide))
    exact ⟨(ignores_inTime.mono (by decide)) w w' hv hw.1, htries ▸ hw.2⟩
  have hclear (s : Slot) : Preserves (fun w => w.InTime slot evs ∧ 0 < w.state.remainingTries)
      (clearPinFlags s) := by
    intro w hw
    have htries : (final (clearPinFlags s) w).state.remainingTries = w.state.remainingTries :=
      congrArg (fun x : UInt8 × Int8 × Bytes 16 × Bytes 16 => x.2.1)
        (touches_clearPinFlags .pinState (by decide) w)
    exact ⟨inTime_clearPinFlags w hw.1, htries ▸ hw.2⟩
  have hguard {m : CtapM (List UInt8)}
      (hm : Preserves (fun w => w.InTime slot evs ∧ 0 < w.state.remainingTries) m) {w : World}
      (hw : w.InTime slot evs) (hpos : 0 < w.state.remainingTries) :
      Ends m w (fun _ => World.InTime slot evs) fun _ => World.InTime slot evs :=
    (hm.ends ⟨hw, hpos⟩).mono (fun _ _ h => h.1) fun _ _ h => h.1
  rw [preserves_iff_ends]
  intro w h
  unfold dispatch
  simp only [ends_bind, ends_get, ends_failIf]
  refine ⟨fun _ => h, fun hlock => ⟨fun _ => h, fun _ => ?_⟩⟩
  have hpos (hc : c.checksLock = true) : 0 < w.state.remainingTries := by
    simpa [clientPinIsLocked, hc] using hlock
  cases c with
  | makeCredential =>
    exact hguard (preserves_ctapMakeCredential_of_auth hlive (fun _ _ _ => inTime_clientPinVerifyAuthEx)
      hclear) h (hpos rfl)
  | getAssertion =>
    exact hguard (preserves_ctapGetAssertion_of_auth hlive (fun _ _ _ => inTime_clientPinVerifyAuthEx)
      hclear) h (hpos rfl)
  | getInfo => exact (preserves_inTime touches_ctapGetInfo (by decide)).ends h
  | clientPin => exact inTime_ctapClientPin.ends h
  | reset => exact inTime_ctapReset.ends h
  | getNextAssertion =>
    exact Preserves.ends (preserves_get.bind fun _ => preserves_failIf.bind fun _ =>
      preserves_inTime touches_ctapGetNextAssertion (by decide)) h
  | credentialManagement =>
    exact hguard (preserves_ctapCredentialManagement_of_auth hlive
      fun _ _ _ => inTime_clientPinVerifyAuthEx) h (hpos rfl)
  | selection => exact (preserves_inTime touches_ctapSelection (by decide)).ends h
  | invalid => exact h

end InTime

/-! ## Runs -/

/-- What happened to the tokens since the last start, the oldest event first. -/
def tokenUse : List Entry → List Event
  | [] => []
  | .boot _ :: _ => []
  | .request r :: h => tokenUse h ++ r.after.usage

/-- In every run whose clock does not go back: a pinUvAuthParam verifies only under the token that the
record was last put into use for, in a call at most ten minutes behind the issuance, and no two
consecutive calls for the record since then, the issuance counting as the first, are more than thirty
seconds apart. -/
theorem token_accepted_in_time {P : Platform} {h : List Entry} {w : World} (hr : Run P h w)
    (hclock : ClockRuns (tokenUse h)) (slot : Slot) : AcceptedInTime slot (tokenUse h) := by
  have htimed : RecordTimed slot (tokenUse h) (w.token slot) w.state.remainingTries := by
    clear hclock
    have hidle {w : World} (hst : w.Started P) :
        RecordTimed slot [] (w.token slot) w.state.remainingTries := by
      refine fun _ => ⟨fun _ _ _ _ _ heq => by simp at heq, fun _ hu => ?_⟩
      rw [hst.idle slot] at hu
      cases hu
    induction hr with
    | start hw hb =>
      obtain ⟨-, -, -, -, hst⟩ := hb.of_new hw
      exact hidle hst
    | boot hr hb ih =>
      obtain ⟨-, -, -, -, hst⟩ := hb.of_stored hr.synced.file hr.synced.version
      exact hidle hst
    | @request h w hr r hv hb ih =>
      subst hb
      have hbefore : (r.before.withInputs r.after.inputs).InTime slot (tokenUse h) := by
        show RecordTimed slot (tokenUse h ++ []) _ _
        rw [List.append_nil]
        exact ih
      obtain ⟨w₁, hafter, hd⟩ := hv.run
      have hafter₁ : w₁.InTime slot (tokenUse h) := by
        rcases hd with ⟨-, hd⟩ | ⟨e, -, hd⟩
        · exact (inTime_dispatch.ends hbefore).ok hd
        · exact (inTime_dispatch.ends hbefore).error hd
      have hrequest : r.after.InTime slot (tokenUse h) := by
        rw [hafter]
        exact hafter₁
      exact hrequest
  exact (htimed hclock).1

theorem tokenUse_requests (rs : List Served) (w : World) :
    tokenUse (rs.map .request ++ [.boot w]) = rs.reverse.flatMap fun r => r.after.usage := by
  induction rs with
  | nil => rfl
  | cons r rs ih =>
    rw [List.map_cons, List.cons_append, tokenUse, ih]
    simp

/-- Two assertions under one token. -/
theorem token_accepted_in_time_two_assertions :
    ∃ h w, Run simPlatform h w ∧ ClockRuns (tokenUse h) ∧
      ((tokenUse h).filter Event.isVerification).length = 2 ∧ AcceptedInTime .p1 (tokenUse h) := by
  have heval : (assertTwice "a" "b").map (fun x =>
      let evs := x.2.reverse.flatMap fun r => r.after.usage
      (decide ((evs.filterMap Event.reading?).Pairwise (· ≤ ·)), (evs.filter Event.isVerification).length))
      = some (true, 2) := by
    decide +kernel
  obtain ⟨⟨w, rs⟩, hrs, hx⟩ := Option.map_eq_some_iff.mp heval
  obtain ⟨hclock, htwo⟩ := Prod.mk.inj hx
  have hrun := serveAll_run run_simStart hrs
  have huse := tokenUse_requests rs simStart
  have hclock' : ClockRuns (tokenUse (rs.map .request ++ [.boot simStart])) := by
    rw [huse, ClockRuns]
    exact of_decide_eq_true hclock
  exact ⟨_, w, hrun, hclock', by rw [huse]; exact htwo, token_accepted_in_time hrun hclock' .p1⟩

end TkeyFido2
