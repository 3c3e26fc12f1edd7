import TkeyFido2.Hid.Invariants

/-!
# The channel table and the message under way

The table and the buffer are kept apart, and each error exit clears one, the other, both or neither.
A refused `CTAPHID_INIT` releases the channel of a message that stays, an accepted one drops a
message whose channel stays busy, and two commands return without releasing theirs.  In the runs
without these steps a channel is busy exactly while it owns the message under way.
-/

namespace TkeyFido2.Hid

open Cbor Prog

/-! ## A message under way has a busy channel -/

/-- The states reached by packets that satisfy a condition, given the state they meet. -/
inductive ReachedWhen (version : Version) (P : Platform) (ok : Device → Packet → Prop) : Device → Prop
  | start {d : Device} (h : d.IsStarted P) : ReachedWhen version P ok d
  | packet {d d' : Device} (h : ReachedWhen version P ok d) (env : Env) (pkt : Packet) (hok : ok d pkt)
      (hp : ctaphidHandlePacket version P env d pkt = .ok d') : ReachedWhen version P ok d'
  | timeouts {d : Device} (h : ReachedWhen version P ok d) :
      ReachedWhen version P ok { d with layer := ctaphidCheckTimeouts d.layer }

theorem ReachedWhen.reached {version : Version} {P : Platform} {ok : Device → Packet → Prop} {d : Device}
    (h : ReachedWhen version P ok d) : Reached version P d := by
  induction h with
  | start h => exact .start h
  | packet h env pkt hok hp ih => exact .packet ih env pkt hp
  | timeouts h ih => exact .timeouts ih

/-- The packet is no refused `CTAPHID_INIT` on the channel of the message under way. -/
def KeepsOwner (d : Device) (pkt : Packet) : Prop :=
  d.layer.buffer.status = .buffering → pkt.isInitPkt = true → pkt.RefusedInit →
    pkt.cid ≠ d.layer.buffer.cid

/-- The entry of the channel that owns the message under way is busy. -/
def Layer.Covered (l : Layer) : Prop :=
  l.buffer.status = .buffering → ∃ e, entryOf l.cids l.buffer.cid = some e ∧ e.busy = true

section Covered

variable {version : Version} {P : Platform} {l l' : Layer} {pkt : Packet} {d : Device}

theorem covered_of_empty (h : l.buffer.status = .empty) : l.Covered := by
  intro hst
  simp [h] at hst

theorem Moves.covered (h : Moves version l pkt l'.cids l'.buffer) (hl : l.Sound) (hc : l.Covered)
    (hok : l.buffer.status = .buffering → pkt.isInitPkt = true → pkt.RefusedInit →
      pkt.cid ≠ l.buffer.cid) : l'.Covered := by
  obtain ⟨cids', last, buf', sent, clock, ticks⟩ := l'
  simp only at h
  cases h with
  | ignored => exact hc
  | refused href hother =>
    intro hst
    have hst' : l.buffer.status = .buffering := hst
    have hne : pkt.cid ≠ l.buffer.cid := by
      by_cases hinit : pkt.isInitPkt = true
      · exact hok hst' hinit (href hinit)
      · rcases hother (by simpa using hinit) hst' with h | h | h
        · exact h
        · rw [h]
          exact (hl.cid_ne hst').symm
        · intro heq
          rw [heq, hl.known hst'] at h
          simp at h
    show ∃ e, entryOf (released pkt.cid l.cids) l.buffer.cid = some e ∧ e.busy = true
    rw [entryOf_released_of_ne hne.symm]
    exact hc hst'
  | tooLong hst hexists => exact fun h => absurd h hst
  | init => exact covered_of_empty rfl
  | aborted => exact covered_of_empty rfl
  | buffering ht hst =>
    intro _
    obtain ⟨e, he, hbusy⟩ := ht.busy
    exact ⟨e, (ht.taken hl).cid_eq ▸ he, hbusy⟩
  | served => exact covered_of_empty rfl
  | left ht hearly => exact covered_of_empty (Buffer.status_eq_empty.mpr hearly.2)

theorem covered_checkTimeouts (hc : l.Covered) : (ctaphidCheckTimeouts l).Covered := by
  intro hst
  have hst' : (checkTimeoutsLoop l.cids l).2.buffer.status = .buffering := hst
  have hbuf : (checkTimeoutsLoop l.cids l).2.buffer = l.buffer := by
    rcases checkTimeoutsLoop_buffer l.cids l with h | h
    · exact h
    · simp [h] at hst'
  have hentry := entryOf_checkTimeoutsLoop hst'
  show ∃ e, entryOf (checkTimeoutsLoop l.cids l).1 (checkTimeoutsLoop l.cids l).2.buffer.cid = some e ∧ _
  rw [hbuf, hentry]
  exact hc (hbuf ▸ hst')

theorem ReachedWhen.covered (h : ReachedWhen version P KeepsOwner d) : d.layer.Covered := by
  induction h with
  | start h =>
    obtain ⟨-, -, hbuf, -, -⟩ := h
    exact covered_of_empty (by rw [hbuf]; rfl)
  | packet h env pkt hok hp ih =>
    obtain ⟨hbusy, hl⟩ := h.reached.sound
    exact (moves_of_handle hbusy hp).2.covered hl ih hok
  | timeouts h ih => exact covered_checkTimeouts ih

/-- An empty buffer stays empty. -/
theorem checkTimeoutsLoop_of_empty {cs : List Cid} (h : l.buffer.status = .empty) :
    (checkTimeoutsLoop cs l).2.buffer.status = .empty := by
  rcases checkTimeoutsLoop_buffer cs l with h' | h'
  · rw [h', h]
  · rw [h']
    rfl

/-- When the time of a busy entry of the owner is up, the message goes. -/
theorem checkTimeoutsLoop_expires {cs : List Cid} {e : Cid} (he : e ∈ cs) (hbusy : e.busy = true)
    (hcid : e.cid = l.buffer.cid)
    (htime : ∀ k, l.ticks ≤ k → 750 ≤ (l.clock k).toUInt64 - e.lastUsed) :
    (checkTimeoutsLoop cs l).2.buffer.status = .empty := by
  induction cs generalizing l with
  | nil => simp at he
  | cons c cs ih =>
    show (checkTimeoutsLoop cs (checkTimeout c l).2).2.buffer.status = .empty
    rcases checkTimeout_buffer c l with hb | hb
    · rcases List.mem_cons.mp he with rfl | he
      · refine checkTimeoutsLoop_of_empty ?_
        have hnow : 750 ≤ l.millis.1.toUInt64 - e.lastUsed := htime l.ticks le_rfl
        have hown : e.cid = (l.millis.2.send [.error e.cid ctap1ErrTimeout]).buffer.cid := hcid
        unfold checkTimeout
        simp only [hbusy, if_true]
        rw [if_pos hnow]
        simp only
        rw [if_pos hown]
        rfl
      · have hstep : l.ticks ≤ (checkTimeout c l).2.ticks ∧ (checkTimeout c l).2.clock = l.clock := by
          unfold checkTimeout
          split_ifs
          · simp only
            split_ifs
            · exact ⟨Nat.le_succ _, rfl⟩
            · exact ⟨Nat.le_succ _, rfl⟩
            · exact ⟨Nat.le_succ _, rfl⟩
          · exact ⟨le_rfl, rfl⟩
        refine ih he (by rw [hb, hcid]) fun k hk => ?_
        rw [hstep.2]
        exact htime k (hstep.1.trans hk)
    · exact checkTimeoutsLoop_of_empty (by rw [hb]; rfl)

/-- **A message under way has a busy channel**, in every run without a refused `CTAPHID_INIT` on the
channel of the message, and when its time is up the message goes. -/
theorem open_message_has_busy_channel (h : ReachedWhen version P KeepsOwner d)
    (hst : d.layer.buffer.status = .buffering) :
    ∃ e ∈ d.layer.cids, e.cid = d.layer.buffer.cid ∧ e.busy = true ∧
      ((∀ k, d.layer.ticks ≤ k → 750 ≤ (d.layer.clock k).toUInt64 - e.lastUsed) →
        (ctaphidCheckTimeouts d.layer).buffer.status = .empty) := by
  obtain ⟨e, he, hbusy⟩ := h.covered hst
  have hmem : e ∈ d.layer.cids := List.mem_of_find?_eq_some he
  have hcid : e.cid = d.layer.buffer.cid := by simpa using List.find?_some he
  exact ⟨e, hmem, hcid, hbusy, checkTimeoutsLoop_expires hmem hbusy hcid⟩

end Covered

/-- The channel of the first packet is busy. -/
theorem open_message_has_busy_channel_opening : ∃ d, ReachedWhen simVersion simPlatform KeepsOwner d ∧
    ∃ e ∈ d.layer.cids, e.cid = d.layer.buffer.cid ∧ e.busy = true := by
  obtain ⟨d, hd, hst⟩ : ∃ d ∈ simHandle [simOpening], d.layer.buffer.status = .buffering := by
    decide +kernel
  have hok : KeepsOwner simDevice simOpening := by
    intro hst
    exact absurd hst (by decide +kernel)
  have h := (ReachedWhen.start simDevice_isStarted).packet simEnv simOpening hok
    (handlePacket_of_simHandle hd)
  obtain ⟨e, he, hcid, hbusy, -⟩ := open_message_has_busy_channel h hst
  exact ⟨d, h, e, he, hcid, hbusy⟩

/-- A `CTAPHID_INIT` of the wrong length on the channel of a message under way releases the channel
and keeps the message, which no timeout will then drop. -/
theorem refused_init_uncovers_open_message :
    ¬ ∀ (version : Version) (P : Platform) (d : Device), Reached version P d →
      d.layer.buffer.status = .buffering →
        ∃ e ∈ d.layer.cids, e.cid = d.layer.buffer.cid ∧ e.busy = true := by
  intro hall
  obtain ⟨d, hd, hst, hidle⟩ : ∃ d ∈ simHandle [simOpening, initReport 2 ctaphidInit 7 []],
      d.layer.buffer.status = .buffering ∧ ∀ e ∈ d.layer.cids, e.busy = false := by decide +kernel
  obtain ⟨e, he, -, hbusy⟩ := hall _ _ d (reached_of_simHandle hd) hst
  rw [hidle e he] at hbusy
  cases hbusy

/-! ## A busy channel has a message under way -/

/-- No entry is busy. -/
def Idle (cids : List Cid) : Prop := ∀ e ∈ cids, e.busy = false

section Idle

variable {cids : List Cid} {e : Cid} {cid c : UInt32} {now : UInt64}

theorem idle_cons : Idle (e :: cids) ↔ e.busy = false ∧ Idle cids := by simp [Idle]

theorem released_cons : released cid (e :: cids)
    = if e.cid = cid then { e with busy := false } :: cids else e :: released cid cids := by
  unfold released
  by_cases h : e.cid = cid
  · simp [updateFirst, h]
  · simp only [updateFirst, beq_iff_eq, h, if_false]
    cases updateFirst (·.cid == cid) (fun e => { e with busy := false }) cids <;> rfl

theorem refreshed_cons : refreshed cid now (e :: cids)
    = if e.cid = cid then { e with lastUsed := now, busy := true } :: cids
      else e :: refreshed cid now cids := by
  unfold refreshed
  by_cases h : e.cid = cid
  · simp [updateFirst, h]
  · simp only [updateFirst, beq_iff_eq, h, if_false]
    cases updateFirst (·.cid == cid) (fun e => { e with lastUsed := now, busy := true }) cids <;> rfl

theorem Idle.released (h : Idle cids) : Idle (released cid cids) := by
  induction cids with
  | nil => exact h
  | cons e es ih =>
    obtain ⟨he, hes⟩ := idle_cons.mp h
    rw [released_cons]
    split_ifs
    · exact idle_cons.mpr ⟨rfl, hes⟩
    · exact idle_cons.mpr ⟨he, ih hes⟩

/-- Releasing another channel leaves at most the owner busy. -/
theorem Idle.released_released (h : Idle (Hid.released cid cids)) :
    Idle (Hid.released cid (Hid.released c cids)) := by
  induction cids with
  | nil => exact h
  | cons e es ih =>
    rw [released_cons] at h ⊢
    split_ifs at h with hcid
    · have hes := (idle_cons.mp h).2
      split_ifs
      · rw [released_cons, if_pos hcid]
        exact idle_cons.mpr ⟨rfl, hes⟩
      · rw [released_cons, if_pos hcid]
        exact idle_cons.mpr ⟨rfl, hes.released⟩
    · obtain ⟨he, hes⟩ := idle_cons.mp h
      split_ifs
      · rw [released_cons, if_neg hcid]
        exact idle_cons.mpr ⟨rfl, hes⟩
      · rw [released_cons, if_neg hcid]
        exact idle_cons.mpr ⟨he, ih hes⟩

/-- Refreshing the owner leaves at most the owner busy. -/
theorem Idle.released_refreshed (h : Idle (Hid.released cid cids)) :
    Idle (Hid.released cid (refreshed cid now cids)) := by
  induction cids with
  | nil => exact h
  | cons e es ih =>
    rw [released_cons] at h
    rw [refreshed_cons]
    split_ifs at h ⊢ with hcid
    · rw [released_cons, if_pos hcid]
      exact idle_cons.mpr ⟨rfl, (idle_cons.mp h).2⟩
    · rw [released_cons, if_neg hcid]
      exact idle_cons.mpr ⟨(idle_cons.mp h).1, ih (idle_cons.mp h).2⟩

theorem Idle.cid_eq (h : Idle (Hid.released cid cids)) (he : e ∈ cids) (hbusy : e.busy = true) :
    e.cid = cid := by
  induction cids with
  | nil => simp at he
  | cons c cs ih =>
    rw [released_cons] at h
    split_ifs at h with hcid
    · rcases List.mem_cons.mp he with rfl | he
      · exact hcid
      · rw [(idle_cons.mp h).2 e he] at hbusy
        cases hbusy
    · rcases List.mem_cons.mp he with rfl | he
      · rw [(idle_cons.mp h).1] at hbusy
        cases hbusy
      · exact ih (idle_cons.mp h).2 he

/-- Where no entry is busy, a new channel takes the first one, and releasing it leaves none busy. -/
theorem Idle.addCid {l : Layer} (h : Idle l.cids) (hlen : l.cids.length = 9) (cid : UInt32) :
    (l.addCid cid).1 = true ∧ Idle (Hid.released cid (l.addCid cid).2.cids) := by
  cases hcids : l.cids with
  | nil => simp [hcids] at hlen
  | cons e es =>
    rw [hcids] at h
    obtain ⟨he, hes⟩ := idle_cons.mp h
    unfold Layer.addCid
    simp only [hcids, updateFirst, he, Bool.not_false, if_true, true_and]
    rw [released_cons, if_pos rfl]
    exact idle_cons.mpr ⟨rfl, hes⟩

end Idle

/-- At most the entry of the channel that owns the message under way is busy. -/
structure Layer.Paired (l : Layer) : Prop where
  owner : l.buffer.status = .buffering → Idle (released l.buffer.cid l.cids)
  none : l.buffer.status ≠ .buffering → Idle l.cids

/-- The packet is no accepted `CTAPHID_INIT` that drops the message of another channel, and no empty
message of a command that returns early. -/
def ReleasesChannel (d : Device) (pkt : Packet) : Prop :=
  (d.layer.buffer.status = .buffering → pkt.isInitPkt = true → ¬ pkt.RefusedInit →
    pkt.cid = d.layer.buffer.cid) ∧
  (d.layer.buffer.status ≠ .buffering → pkt.cid ≠ ctaphidBroadcastCid → ¬ returnsEarly pkt.cmd pkt.len)

section Paired

variable {version : Version} {P : Platform} {l l' : Layer} {pkt : Packet} {d : Device}

theorem paired_of_idle (hst : l.buffer.status ≠ .buffering) (h : Idle l.cids) : l.Paired :=
  ⟨fun h' => absurd h' hst, fun _ => h⟩

/-- Wherever the layer stands, after `cid_del` of the owner no entry is busy. -/
theorem Layer.Paired.released (h : l.Paired) : Idle (released l.buffer.cid l.cids) := by
  by_cases hst : l.buffer.status = .buffering
  · exact h.owner hst
  · exact (h.none hst).released

theorem Idle.enterChannel (h : Idle l.cids) (hlen : l.cids.length = 9) :
    Idle (Hid.released pkt.cid (Hid.enterChannel l pkt).cids) := by
  unfold Hid.enterChannel
  split_ifs
  · exact (h.addCid hlen pkt.cid).2
  · exact h.released

/-- An accepted `CTAPHID_INIT` leaves no entry busy when none was, or only that of its channel. -/
theorem idle_bufferInitPacket (version : Version) (hacc : ¬ pkt.RefusedInit) (hl : l.Sound) (hp : l.Paired)
    (hown : l.buffer.status = .buffering → pkt.cid = l.buffer.cid) :
    Idle (bufferInitPacket version l pkt).2.cids := by
  obtain ⟨hlen, hcid⟩ := not_or.mp hacc
  have hreply : ∀ newcid r, r.1 = true → Idle (released newcid r.2.cids) →
      Idle (replyInit version pkt newcid r).2.cids := by
    intro newcid r hr h
    unfold replyInit
    rw [if_pos hr]
    simpa using h
  have hidle : ¬ cidExists l.cids pkt.cid = true → Idle l.cids := by
    intro hnot
    refine hp.none fun hst => hnot ?_
    rw [hown hst]
    exact hl.known hst
  unfold bufferInitPacket
  rw [if_neg hlen, if_neg hcid]
  by_cases hb : pkt.isBroadcast = true
  · have hst : l.buffer.status ≠ .buffering := by
      intro hst
      refine hl.cid_ne hst ?_
      rw [← hown hst]
      simpa [Packet.isBroadcast] using hb
    have hadd := Idle.addCid (l := { l with buffer := l.buffer.reset, lastCid := getNewCid l.lastCid })
      (hp.none hst) hl.table (getNewCid l.lastCid)
    simp only [hb, if_true]
    exact hreply _ _ hadd.1 hadd.2
  · simp only [hb, Bool.false_eq_true, if_false]
    split_ifs with hexists
    · obtain ⟨now, hnow⟩ := cidRefresh_cids { l with buffer := l.buffer.reset } pkt.cid
      refine hreply _ _ (cidRefresh_of_cidExists hexists) ?_
      rw [hnow]
      refine Idle.released_refreshed ?_
      by_cases hst : l.buffer.status = .buffering
      · rw [hown hst]
        exact hp.owner hst
      · exact (hp.none hst).released
    · have hadd := Idle.addCid (l := { l with buffer := l.buffer.reset }) (hidle hexists) hl.table pkt.cid
      exact hreply _ _ hadd.1 hadd.2

/-- A packet that was taken leaves at most its own channel busy. -/
theorem Takes.idle {b : Buffer} {cids : List Cid} (h : Takes l pkt b cids) (hl : l.Sound)
    (hp : l.Paired) : Idle (Hid.released pkt.cid cids) := by
  cases h with
  | first hinit hcont hcid hst hlen hexists hb =>
    exact ((hp.none hst).enterChannel hl.table).released_refreshed
  | next hcont hcid hst hown hexists hb =>
    refine Idle.released_refreshed ?_
    rw [hown]
    exact hp.released

theorem Moves.paired (h : Moves version l pkt l'.cids l'.buffer) (hl : l.Sound) (hp : l.Paired)
    (hinit : l.buffer.status = .buffering → pkt.isInitPkt = true → ¬ pkt.RefusedInit →
      pkt.cid = l.buffer.cid)
    (hempty : l.buffer.status ≠ .buffering → pkt.cid ≠ ctaphidBroadcastCid →
      ¬ returnsEarly pkt.cmd pkt.len) : l'.Paired := by
  obtain ⟨cids', last, buf', sent, clock, ticks⟩ := l'
  simp only at h
  cases h with
  | ignored => exact ⟨hp.owner, hp.none⟩
  | refused => exact ⟨fun hst => (hp.owner hst).released_released, fun hst => (hp.none hst).released⟩
  | tooLong hst hexists => exact paired_of_idle hst ((hp.none hst).enterChannel hl.table)
  | @init r l₁ hi hacc hr =>
    have hidle := idle_bufferInitPacket version hacc hl hp fun hst => hinit hst hi hacc
    rw [hr] at hidle
    refine paired_of_idle (by simp) ?_
    show Idle (if r.status = .hidError then released pkt.cid l₁.cids else l₁.cids)
    split_ifs
    · exact hidle.released
    · exact hidle
  | aborted _ hown =>
    refine paired_of_idle (by simp) ?_
    show Idle (released pkt.cid l.cids)
    rw [hown]
    exact hp.released
  | buffering ht hst =>
    refine ⟨fun _ => ?_, fun h => absurd hst h⟩
    have hidle := ht.idle hl hp
    rw [← (ht.taken hl).cid_eq] at hidle
    exact hidle
  | served ht hst hend => exact paired_of_idle (by simp) (ht.idle hl hp)
  | left ht hearly =>
    -- only the first packet of a message can be its end with nothing received
    cases ht with
    | first hi hcont hcid hst hlen hexists hb =>
      rw [packet_of_init _ hcont] at hb
      obtain ⟨-, rfl⟩ := Prod.mk.inj hb
      exact absurd hearly (hempty hst hcid)
    | next hcont hcid hst hown hexists hb =>
      rw [packet_of_cont _ hcont] at hb
      split_ifs at hb
      · simp at hb
      · simp at hb
      · obtain ⟨-, rfl⟩ := Prod.mk.inj hb
        have hzero : l.buffer.bcnt = 0 := hearly.2
        exact absurd (Buffer.status_eq_empty.mpr hzero) hst

theorem checkTimeoutsLoop_of_idle {cs : List Cid} (h : Idle cs) : checkTimeoutsLoop cs l = (cs, l) := by
  induction cs with
  | nil => rfl
  | cons c cs ih =>
    obtain ⟨hc, hcs⟩ := idle_cons.mp h
    have hstep : checkTimeout c l = (c, l) := by simp [checkTimeout, hc]
    simp only [checkTimeoutsLoop, hstep, ih hcs]

/-- With at most the owner busy, the timeouts do nothing or end the message of the owner. -/
theorem checkTimeoutsLoop_of_paired {cs : List Cid} (h : Idle (released l.buffer.cid cs)) :
    ((checkTimeoutsLoop cs l).1 = cs ∧ (checkTimeoutsLoop cs l).2.buffer = l.buffer ∧
      (checkTimeoutsLoop cs l).2.sent = l.sent) ∨
    (Idle (checkTimeoutsLoop cs l).1 ∧ (checkTimeoutsLoop cs l).2.buffer = l.buffer.reset ∧
      (checkTimeoutsLoop cs l).2.sent
        = l.sent ++ (Message.error l.buffer.cid ctap1ErrTimeout).packets ∧
      ∃ e ∈ cs, e.busy = true) := by
  induction cs with
  | nil => exact .inl ⟨rfl, rfl, rfl⟩
  | cons c cs ih =>
    rw [released_cons] at h
    split_ifs at h with hcid
    · have hcs := (idle_cons.mp h).2
      simp only [checkTimeoutsLoop, checkTimeoutsLoop_of_idle hcs]
      by_cases hbusy : c.busy = true
      · by_cases htime : 750 ≤ l.millis.1.toUInt64 - c.lastUsed
        · have hstep : checkTimeout c l = ({ c with busy := false },
              (l.millis.2.send [.error c.cid ctap1ErrTimeout]).bufferReset) := by
            unfold checkTimeout
            simp only [hbusy, if_true]
            rw [if_pos htime]
            exact congrArg _ (if_pos hcid)
          right
          rw [hstep]
          refine ⟨idle_cons.mpr ⟨rfl, hcs⟩, rfl, ?_, c, List.mem_cons_self, hbusy⟩
          simp [Layer.send, Layer.bufferReset, Layer.millis, hcid]
        · have hstep : checkTimeout c l = (c, l.millis.2) := by
            unfold checkTimeout
            simp only [hbusy, if_true]
            rw [if_neg htime]
          left
          rw [hstep]
          exact ⟨rfl, rfl, rfl⟩
      · have hstep : checkTimeout c l = (c, l) := by simp [checkTimeout, hbusy]
        left
        rw [hstep]
        exact ⟨rfl, rfl, rfl⟩
    · obtain ⟨hc, hcs⟩ := idle_cons.mp h
      have hstep : checkTimeout c l = (c, l) := by simp [checkTimeout, hc]
      simp only [checkTimeoutsLoop, hstep]
      rcases ih hcs with ⟨h₁, h₂, h₃⟩ | ⟨h₁, h₂, h₃, e, he, hbusy⟩
      · exact .inl ⟨by rw [h₁], h₂, h₃⟩
      · exact .inr ⟨idle_cons.mpr ⟨hc, h₁⟩, h₂, h₃, e, List.mem_cons_of_mem c he, hbusy⟩

theorem paired_checkTimeouts (hp : l.Paired) : (ctaphidCheckTimeouts l).Paired := by
  rcases checkTimeoutsLoop_of_paired hp.released with ⟨h₁, h₂, -⟩ | ⟨h₁, h₂, -⟩
  · have hbuf : (ctaphidCheckTimeouts l).buffer = l.buffer := h₂
    have hcids : (ctaphidCheckTimeouts l).cids = l.cids := h₁
    constructor <;> rw [hbuf, hcids]
    · exact hp.owner
    · exact hp.none
  · have hbuf : (ctaphidCheckTimeouts l).buffer = l.buffer.reset := h₂
    exact paired_of_idle (by rw [hbuf]; simp) h₁

theorem ReachedWhen.paired (h : ReachedWhen version P ReleasesChannel d) : d.layer.Paired := by
  induction h with
  | start h =>
    obtain ⟨hcids, -, hbuf, -, -⟩ := h
    refine paired_of_idle (by rw [hbuf]; decide +kernel) ?_
    rw [hcids]
    intro e he
    rw [(List.mem_replicate.mp he).2]
  | packet h env pkt hok hp ih =>
    obtain ⟨hbusy, hl⟩ := h.reached.sound
    exact (moves_of_handle hbusy hp).2.paired hl ih hok.1 hok.2
  | timeouts h ih => exact paired_checkTimeouts ih

/-- **A busy channel owns the message under way**, in every run without an accepted `CTAPHID_INIT`
that drops the message of another channel and without an empty CBOR or MSG message.  The timeouts
then send nothing, or one error on the channel that owns the message. -/
theorem busy_channel_owns_open_message (h : ReachedWhen version P ReleasesChannel d) :
    (∀ e ∈ d.layer.cids, e.busy = true →
      d.layer.buffer.status = .buffering ∧ e.cid = d.layer.buffer.cid) ∧
    ((ctaphidCheckTimeouts d.layer).sent = d.layer.sent ∨
      d.layer.buffer.status = .buffering ∧ (ctaphidCheckTimeouts d.layer).sent
        = d.layer.sent ++ (Message.error d.layer.buffer.cid ctap1ErrTimeout).packets) := by
  have hp := h.paired
  have hbusy : ∀ e ∈ d.layer.cids, e.busy = true → d.layer.buffer.status = .buffering := by
    intro e he hb
    by_contra hst
    rw [hp.none hst e he] at hb
    cases hb
  refine ⟨fun e he hb => ⟨hbusy e he hb, hp.released.cid_eq he hb⟩, ?_⟩
  · rcases checkTimeoutsLoop_of_paired hp.released with ⟨-, -, hsent⟩ | ⟨-, -, hsent, e, he, hb⟩
    · exact .inl hsent
    · exact .inr ⟨hbusy e he hb, hsent⟩

end Paired

/-- The channel of the first packet owns the message. -/
theorem busy_channel_owns_open_message_opening : ∃ d, ReachedWhen simVersion simPlatform ReleasesChannel d ∧
    ∃ e ∈ d.layer.cids, e.busy = true ∧ d.layer.buffer.status = .buffering ∧
      e.cid = d.layer.buffer.cid := by
  obtain ⟨d, hd, e, he, hbusy⟩ : ∃ d ∈ simHandle [simOpening], ∃ e ∈ d.layer.cids, e.busy = true := by
    decide +kernel
  have hok : ReleasesChannel simDevice simOpening := by
    refine ⟨fun hst => absurd hst (by decide +kernel), fun _ _ hearly => ?_⟩
    exact absurd hearly.2 (by decide +kernel)
  have h := (ReachedWhen.start simDevice_isStarted).packet simEnv simOpening hok
    (handlePacket_of_simHandle hd)
  exact ⟨d, h, e, he, hbusy, (busy_channel_owns_open_message h).1 e he hbusy⟩

/-- An empty CBOR message is answered with an error and leaves its channel busy; so does an accepted
`CTAPHID_INIT` that drops the message of another channel. -/
theorem answered_channel_stays_busy :
    ¬ ∀ (version : Version) (P : Platform) (d : Device), Reached version P d →
      ∀ e ∈ d.layer.cids, e.busy = true →
        d.layer.buffer.status = .buffering ∧ e.cid = d.layer.buffer.cid := by
  intro hall
  obtain ⟨d, hd, hst, e, he, hbusy⟩ : ∃ d ∈ simHandle [initReport 2 ctaphidCbor 0 []],
      d.layer.buffer.status = .empty ∧ ∃ e ∈ d.layer.cids, e.busy = true := by decide +kernel
  have h := (hall _ _ d (reached_of_simHandle hd) e he hbusy).1
  rw [hst] at h
  cases h

/-! ## `CTAPHID_INIT` while a message is under way -/

/-- The rest of the message under way, whatever it is, completes it. -/
def Layer.Completes (version : Version) (l : Layer) : Prop :=
  ∀ payload : List UInt8, payload.length = l.buffer.bcnt.toNat →
    payload.take l.buffer.offset = l.buffer.data.toList.take l.buffer.offset →
    Steps version l.buffer.cid l.buffer.cmd payload l
      (contReports l.buffer.cid (l.buffer.packetSeq + 1).toNat (payload.drop l.buffer.offset))

section Init

variable {version : Version} {P : Platform} {env : Env} {d d' : Device} {pkt : Packet} {l : Layer}

theorem Layer.Sound.completes (hl : l.Sound) (hst : l.buffer.status = .buffering) :
    l.Completes version := by
  intro payload hlen hdata
  obtain ⟨hne, hmore⟩ := Buffer.status_eq_buffering.mp hst
  have hoff := hl.offset_eq hst
  have hle := hl.offset_le
  have hb : l.buffer.bcnt.toNat ≤ 1344 := hl.bcnt_le
  have hk : l.buffer.offset = 57 + 59 * (l.buffer.packetSeq + 1).toNat := by omega
  have hown := contReports_cid l.buffer.cid (l.buffer.packetSeq + 1).toNat (payload.drop l.buffer.offset)
  have hrec : Receiving l.buffer.cid l.buffer.cmd payload (57 + 59 * (l.buffer.packetSeq + 1).toNat)
      (l.buffer.packetSeq + 1).toNat l.buffer := by
    refine ⟨rfl, rfl, hlen.symm, hk, by omega, ?_⟩
    rw [← hk]
    exact hdata.symm
  refine receiving_steps (by omega) (hl.cid_ne hst) _ l _ hrec (by omega) (hl.known hst) ?_ ?_ ?_
  · rw [hk]
    rw [hk] at hown
    exact List.filter_eq_self.mpr fun p hp => by simpa using hown p hp
  · exact fun p hp hcid => absurd (hown p hp) hcid
  · exact fun p hp => hown p (List.mem_of_mem_getLast? hp)

/-- What a `CTAPHID_INIT` packet leaves of the buffer. -/
theorem handlePacket_init (version : Version) (P : Platform) (env : Env) (d : Device)
    (hinit : pkt.isInitPkt = true) :
    ∃ d', ctaphidHandlePacket version P env d pkt = .ok d' ∧
      d'.layer.buffer = if pkt.RefusedInit then d.layer.buffer else d.layer.buffer.reset := by
  have hpkt : ctaphidBufferPacket version d.layer pkt
      = some ((bufferInitPacket version d.layer pkt).1, (bufferInitPacket version d.layer pkt).2) := by
    unfold ctaphidBufferPacket
    rw [if_pos hinit]
  have hbuf : (bufferInitPacket version d.layer pkt).2.buffer
      = if pkt.RefusedInit then d.layer.buffer else d.layer.buffer.reset := by
    by_cases href : pkt.RefusedInit
    · rw [if_pos href]
      unfold bufferInitPacket
      by_cases hlen : pkt.len ≠ 8
      · rw [if_pos hlen]
      · rw [if_neg hlen, if_pos (href.resolve_left hlen)]
    · rw [if_neg href]
      exact bufferInitPacket_buffer version d.layer href
  obtain ⟨-, hcmd, hst⟩ := bufferInitPacket_received version d.layer pkt
  rcases hst with hst | hst
  · refine ⟨_, handlePacket_error hpkt hst, ?_⟩
    rw [(handleError_layer _ _ _).2, if_neg hcmd]
    exact hbuf
  · exact ⟨_, handlePacket_ignored hpkt hst, hbuf⟩

/-- **`CTAPHID_INIT` keeps the message of another channel exactly when it is refused.** -/
theorem init_keeps_open_message_iff (h : Reached version P d)
    (hst : d.layer.buffer.status = .buffering) (hinit : pkt.isInitPkt = true)
    (hcid : pkt.cid ≠ d.layer.buffer.cid) :
    (∃ d', ctaphidHandlePacket version P env d pkt = .ok d' ∧
      d'.layer.buffer = d.layer.buffer ∧ d'.layer.Completes version) ↔ pkt.RefusedInit := by
  obtain ⟨d₁, hd₁, hbuf⟩ := handlePacket_init version P env d hinit
  constructor
  · rintro ⟨d', hp, hkeep, -⟩
    by_contra hacc
    obtain rfl : d₁ = d' := Except.ok.inj (hd₁.symm.trans hp)
    rw [if_neg hacc] at hbuf
    have hreset : d.layer.buffer.status = .empty := by rw [← hkeep, hbuf]; rfl
    rw [hst] at hreset
    cases hreset
  · intro href
    rw [if_pos href] at hbuf
    refine ⟨d₁, hd₁, hbuf, (h.packet env pkt hd₁).sound.2.completes ?_⟩
    rw [hbuf]
    exact hst

end Init

/-- A `CTAPHID_INIT` of the wrong length on channel 3 while channel 2 is in the middle of a message. -/
theorem init_keeps_open_message_iff_refused : ∃ d, Reached simVersion simPlatform d ∧
    d.layer.buffer.status = .buffering ∧
    ∃ d', ctaphidHandlePacket simVersion simPlatform simEnv d (initReport 3 ctaphidInit 7 []) = .ok d' ∧
      d'.layer.buffer = d.layer.buffer ∧ d'.layer.Completes simVersion := by
  obtain ⟨d, hd, hst, hcid⟩ : ∃ d ∈ simHandle [simOpening], d.layer.buffer.status = .buffering ∧
      (initReport 3 ctaphidInit 7 []).cid ≠ d.layer.buffer.cid := by decide +kernel
  have h := reached_of_simHandle hd
  exact ⟨d, h, hst, (init_keeps_open_message_iff h hst (by decide +kernel) hcid).mpr (by decide +kernel)⟩

/-- A `CTAPHID_INIT` on the broadcast channel drops the message that channel 2 is sending. -/
theorem broadcast_init_drops_open_message :
    ¬ ∀ (version : Version) (P : Platform) (env : Env) (d d' : Device) (pkt : Packet),
      Reached version P d → d.layer.buffer.status = .buffering → pkt.isInitPkt = true →
      pkt.cid ≠ d.layer.buffer.cid → ctaphidHandlePacket version P env d pkt = .ok d' →
      d'.layer.buffer.bcnt = d.layer.buffer.bcnt ∧ d'.layer.buffer.offset = d.layer.buffer.offset ∧
        d'.layer.buffer.packetSeq = d.layer.buffer.packetSeq := by
  intro hall
  obtain ⟨d, hd, hst, hcid, hbcnt⟩ : ∃ d ∈ simHandle [simOpening], d.layer.buffer.status = .buffering ∧
      (initReport ctaphidBroadcastCid ctaphidInit 8 []).cid ≠ d.layer.buffer.cid ∧
      d.layer.buffer.bcnt ≠ 0 := by decide +kernel
  have hinit : (initReport ctaphidBroadcastCid ctaphidInit 8 []).isInitPkt = true := by decide +kernel
  obtain ⟨d', hd', hbuf⟩ := handlePacket_init simVersion simPlatform simEnv d hinit
  rw [if_neg (by decide +kernel)] at hbuf
  have h := (hall _ _ _ d d' _ (reached_of_simHandle hd) hst hinit hcid hd').1
  rw [hbuf] at h
  exact hbcnt h.symm

end TkeyFido2.Hid
