import TkeyFido2.Hid.MainLoop
import TkeyFido2.Hid.Replies

/-!
# A request and its response

A host sends a CTAPHID_CBOR message in packets, while other channels and the management interface send what they
like.  If the time between the packets is short, `ctap_request` is called once, with the bytes of the message,
and what comes back on the channel are KEEPALIVEs and one message, the status and the response.
-/

namespace TkeyFido2.Hid

open Cbor Prog

/-- The packets of a channel. -/
def ownPackets (cid : UInt32) (pkts : List Packet) : List Packet := pkts.filter (·.cid == cid)

@[simp] theorem ownPackets_append {cid : UInt32} (xs ys : List Packet) :
    ownPackets cid (xs ++ ys) = ownPackets cid xs ++ ownPackets cid ys := List.filter_append ..

theorem ownPackets_of_all {cid : UInt32} {pkts : List Packet} (h : ∀ p ∈ pkts, p.cid = cid) :
    ownPackets cid pkts = pkts := List.filter_eq_self.mpr fun p hp => by simpa using h p hp

theorem ownPackets_of_none {cid : UInt32} {pkts : List Packet} (h : ∀ p ∈ pkts, p.cid ≠ cid) :
    ownPackets cid pkts = [] := List.filter_eq_nil_iff.mpr fun p hp => by simpa using h p hp

/-! ## Time -/

/-- The timer never goes back. -/
def Layer.NeverBack (l : Layer) : Prop := ∀ i j, i ≤ j → l.clock i ≤ l.clock j

/-- All readings of the timer from number `i` to number `j` lie within 750 ms from `t` on. -/
def Layer.Within (l : Layer) (t i j : Nat) : Prop :=
  ∀ k, i ≤ k → k < j → t ≤ (l.clock k).toNat ∧ (l.clock k).toNat < t + 750

instance (l : Layer) (t i j : Nat) : Decidable (l.Within t i j) := by unfold Layer.Within; infer_instance

/-- An entry that was used at a reading not before `t`. -/
def Layer.UsedSince (l : Layer) (t : Nat) (e : Cid) : Prop :=
  ∃ k < l.ticks, e.lastUsed = (l.clock k).toUInt64 ∧ t ≤ (l.clock k).toNat

/-- The busy entries of a channel in a table were used not before `t`. -/
def Layer.Fresh (l : Layer) (cid : UInt32) (t : Nat) (cids : List Cid) : Prop :=
  ∀ e ∈ cids, e.cid = cid → e.busy = true → l.UsedSince t e

section Time

variable {l l' : Layer} {t i j : Nat} {cid : UInt32} {cids : List Cid} {e : Cid}

theorem Layer.Within.mono {i' j' : Nat} (h : l.Within t i j) (hi : i ≤ i') (hj : j' ≤ j) : l.Within t i' j' :=
  fun k hk hk' => h k (hi.trans hk) (hk'.trans_le hj)

theorem Layer.UsedSince.later (h : l.UsedSince t e) (hclock : l'.clock = l.clock)
    (hticks : l.ticks ≤ l'.ticks) : l'.UsedSince t e := by
  obtain ⟨k, hk, hused, ht⟩ := h
  rw [← hclock] at hused ht
  exact ⟨k, hk.trans_le hticks, hused, ht⟩

theorem Layer.Fresh.later (h : l.Fresh cid t cids) (hclock : l'.clock = l.clock) (hticks : l.ticks ≤ l'.ticks) :
    l'.Fresh cid t cids := fun e he hcid hbusy => (h e he hcid hbusy).later hclock hticks

/-- What was used within the time is not timed out. -/
theorem Layer.UsedSince.not_expired (h : l.UsedSince t e) (hmono : l.NeverBack)
    (hnow : (l.clock l.ticks).toNat < t + 750) : ¬ 750 ≤ (l.clock l.ticks).toUInt64 - e.lastUsed := by
  obtain ⟨k, hk, hused, ht⟩ := h
  have hle : (l.clock k).toNat ≤ (l.clock l.ticks).toNat := UInt32.le_iff_toNat_le.mp (hmono _ _ hk.le)
  have hlt := (l.clock l.ticks).toNat_lt
  rw [hused, UInt64.le_iff_toNat_le, UInt64.toNat_sub_of_le]
  · simp only [UInt32.toNat_toUInt64]
    show ¬ 750 ≤ _
    omega
  · rw [UInt64.le_iff_toNat_le]
    simpa using hle

/-- What the timeouts leave of a channel that is in use: `l'` and the entries `cids'` from `l`. -/
structure Layer.Spares (l : Layer) (cid : UInt32) (t : Nat) (l' : Layer) (cids' : List Cid) : Prop where
  clock : l'.clock = l.clock
  ticks : l.ticks ≤ l'.ticks
  buffer : l.buffer.cid = cid → l'.buffer = l.buffer
  sent : ownPackets cid l'.sent = ownPackets cid l.sent
  fresh : l'.Fresh cid t cids'

theorem error_packets_cid {c : UInt32} {code : UInt8} {p : Packet} (hp : p ∈ (Message.error c code).packets) :
    p.cid = c := (plain_error c code).replies_packets.2 p hp

theorem checkTimeout_timer (e : Cid) (l : Layer) :
    (checkTimeout e l).2.clock = l.clock ∧ l.ticks ≤ (checkTimeout e l).2.ticks := by
  unfold checkTimeout
  split_ifs
  · dsimp only [Layer.millis]
    split_ifs
    · exact ⟨rfl, Nat.le_succ _⟩
    · exact ⟨rfl, Nat.le_succ _⟩
    · exact ⟨rfl, Nat.le_succ _⟩
  · exact ⟨rfl, le_rfl⟩

theorem checkTimeout_spares (hmono : l.NeverBack) (hfresh : l.Fresh cid t [e])
    (hwithin : l.Within t l.ticks (checkTimeout e l).2.ticks) :
    l.Spares cid t (checkTimeout e l).2 [(checkTimeout e l).1] := by
  unfold checkTimeout at hwithin ⊢
  by_cases hbusy : e.busy = true
  · rw [if_pos hbusy] at hwithin ⊢
    dsimp only [Layer.millis] at hwithin ⊢
    by_cases hlate : 750 ≤ (l.clock l.ticks).toUInt64 - e.lastUsed
    · rw [if_pos hlate] at hwithin ⊢
      have hne : e.cid ≠ cid := by
        intro heq
        refine (hfresh e (List.mem_singleton_self e) heq hbusy).not_expired hmono ?_ hlate
        refine (hwithin l.ticks le_rfl ?_).2
        dsimp only
        split_ifs <;> exact Nat.lt_succ_self _
      have hsent (l₁ : Layer) (hl₁ : l₁.sent = l.sent) :
          ownPackets cid (l₁.send [.error e.cid ctap1ErrTimeout]).sent = ownPackets cid l.sent := by
        have hnone : ownPackets cid (Message.error e.cid ctap1ErrTimeout).packets = [] :=
          ownPackets_of_none fun p hp => by rwa [error_packets_cid hp]
        simp [Layer.send, hl₁, hnone]
      have hidle {l₁ : Layer} : l₁.Fresh cid t [{ e with busy := false }] := by
        intro e' he' _ hbusy'
        obtain rfl := List.mem_singleton.mp he'
        cases hbusy'
      dsimp only
      split_ifs with hown
      · exact ⟨rfl, Nat.le_succ _, fun h => absurd (hown.trans h) hne, hsent _ rfl, hidle⟩
      · exact ⟨rfl, Nat.le_succ _, fun _ => rfl, hsent _ rfl, hidle⟩
    · rw [if_neg hlate] at hwithin ⊢
      exact ⟨rfl, Nat.le_succ _, fun _ => rfl, rfl, hfresh.later rfl (Nat.le_succ _)⟩
  · rw [if_neg hbusy]
    exact ⟨rfl, le_rfl, fun _ => rfl, rfl, hfresh⟩

/-- The loop of `ctaphid_check_timeouts` does not touch a channel that was used within the time. -/
theorem checkTimeoutsLoop_spares (hmono : l.NeverBack) (hfresh : l.Fresh cid t cids)
    (hwithin : l.Within t l.ticks (checkTimeoutsLoop cids l).2.ticks) :
    l.Spares cid t (checkTimeoutsLoop cids l).2 (checkTimeoutsLoop cids l).1 := by
  induction cids generalizing l with
  | nil => exact ⟨rfl, le_rfl, fun _ => rfl, rfl, nofun⟩
  | cons e cids ih =>
    obtain ⟨hclock, hticks⟩ := checkTimeout_timer e l
    have hrest : (checkTimeout e l).2.Spares cid t (checkTimeoutsLoop cids (checkTimeout e l).2).2
        (checkTimeoutsLoop cids (checkTimeout e l).2).1 := by
      refine ih (fun i j hij => ?_) ?_ ?_
      · rw [hclock]
        exact hmono i j hij
      · exact Layer.Fresh.later (fun e he => hfresh e (List.mem_cons_of_mem _ he)) hclock hticks
      · intro k hk hk'
        rw [hclock]
        exact hwithin k (hticks.trans hk) hk'
    have hfirst : l.Spares cid t (checkTimeout e l).2 [(checkTimeout e l).1] :=
      checkTimeout_spares hmono (fun x hx => hfresh x (by simp [List.mem_singleton.mp hx]))
        (hwithin.mono le_rfl hrest.ticks)
    refine ⟨hrest.clock.trans hclock, hticks.trans hrest.ticks, fun h => ?_, hrest.sent.trans hfirst.sent, ?_⟩
    · have hkept := hfirst.buffer h
      exact (hrest.buffer (by rwa [hkept])).trans hkept
    · intro x hx
      rcases List.mem_cons.mp hx with rfl | hx
      · intro hcid hbusy
        exact (hfirst.fresh _ (List.mem_singleton_self _) hcid hbusy).later hrest.clock hrest.ticks
      · exact hrest.fresh x hx

theorem checkTimeoutsLoop_timer (cids : List Cid) (l : Layer) :
    (checkTimeoutsLoop cids l).2.clock = l.clock ∧ l.ticks ≤ (checkTimeoutsLoop cids l).2.ticks := by
  induction cids generalizing l with
  | nil => exact ⟨rfl, le_rfl⟩
  | cons e cids ih =>
    obtain ⟨hclock, hticks⟩ := checkTimeout_timer e l
    obtain ⟨hclock', hticks'⟩ := ih (checkTimeout e l).2
    exact ⟨hclock'.trans hclock, hticks.trans hticks'⟩

end Time

/-! ## The table -/

section Table

variable {l : Layer} {t : Nat} {cid c : UInt32} {cids cids' : List Cid} {b : Buffer}

/-- An entry that is used now. -/
theorem Layer.Fresh.updateFirst {p : Cid → Bool} {f : Cid → Cid} (h : l.Fresh cid t cids)
    (ht : t ≤ (l.clock l.ticks).toNat) (hf : ∀ e, (f e).lastUsed = (l.clock l.ticks).toUInt64)
    (hup : Hid.updateFirst p f cids = some cids') : l.millis.2.Fresh cid t cids' := by
  obtain ⟨pre, e, post, rfl, -, -, rfl⟩ := updateFirst_eq_some hup
  have hold : l.millis.2.Fresh cid t (pre ++ e :: post) := h.later rfl (Nat.le_succ _)
  intro x hx hcid hbusy
  simp only [List.mem_append, List.mem_cons] at hx
  rcases hx with hx | rfl | hx
  · exact hold x (by simp [hx]) hcid hbusy
  · exact ⟨l.ticks, Nat.lt_succ_self _, hf e, ht⟩
  · exact hold x (by simp [hx]) hcid hbusy

/-- A channel that is released. -/
theorem Layer.Fresh.released (h : l.Fresh cid t cids) : l.Fresh cid t (released c cids) := by
  unfold Hid.released
  cases hup : Hid.updateFirst (·.cid == c) (fun e => { e with busy := false }) cids with
  | none => exact h
  | some cids' =>
    obtain ⟨pre, e, post, rfl, -, -, rfl⟩ := updateFirst_eq_some hup
    intro x hx hcid hbusy
    simp only [Option.getD_some, List.mem_append, List.mem_cons] at hx
    rcases hx with hx | rfl | hx
    · exact h x (by simp [hx]) hcid hbusy
    · cases hbusy
    · exact h x (by simp [hx]) hcid hbusy

theorem cidDel_eq (l : Layer) (c : UInt32) : l.cidDel c = { l with cids := Hid.released c l.cids } := by
  unfold Layer.cidDel Hid.released
  split
  · rename_i h
    rw [h]
    rfl
  · rename_i h
    rw [h]
    rfl

/-- The layer behind a packet that was taken. -/
theorem took_spec (b : Buffer) (hknown : cidExists l.cids cid = true) :
    cidExists (l.took b cid).cids cid = true ∧ (l.took b cid).clock = l.clock ∧
      (l.took b cid).ticks = l.ticks + 1 ∧ (l.took b cid).sent = l.sent ∧
      (l.Fresh cid t l.cids → t ≤ (l.clock l.ticks).toNat →
        (l.took b cid).Fresh cid t (l.took b cid).cids) := by
  obtain ⟨cids', hup, hany⟩ := updateFirst_of_any (p := (·.cid == cid))
    (f := fun e => { e with lastUsed := (l.clock l.ticks).toUInt64, busy := true }) (fun _ hc => hc) hknown
  have htook : l.took b cid = { l with buffer := b, cids := cids', ticks := l.ticks + 1 } := by
    unfold Layer.took Layer.cidRefresh Layer.millis
    dsimp only
    rw [hup]
  rw [htook]
  refine ⟨hany, rfl, rfl, rfl, fun hfresh ht => ?_⟩
  have hfresh' : l.millis.2.Fresh cid t cids' := hfresh.updateFirst ht (fun _ => rfl) hup
  exact hfresh'.later rfl le_rfl

end Table

/-! ## Between two packets -/

/-- Behind the first `n` bytes of a message and `k` continuation packets: they are in the buffer, the channel is
in the table, and nothing was done for it yet. -/
structure Device.Awaits (cid : UInt32) (payload : List UInt8) (t : Nat) (w : World) (sent : List Packet)
    (n k : Nat) (d : Device) : Prop where
  receiving : Receiving cid ctaphidCbor payload n k d.layer.buffer
  known : cidExists d.layer.cids cid = true
  fresh : d.layer.Fresh cid t d.layer.cids
  neverBack : d.layer.NeverBack
  idle : d.isBusy = false
  world : d.world = w
  sent : ownPackets cid d.layer.sent = sent

/-- The message of a channel was answered: `ctap_request` was run on it, and the host got KEEPALIVEs, then its
status and response. -/
structure Device.Answered (P : Platform) (env : Env) (cid : UInt32) (payload : List UInt8) (w : World)
    (sent : List Packet) (d : Device) : Prop where
  run : ∃ (status : CtapStatus) (out statuses : List UInt8),
    ctapRequest P (payload.headD 0) payload.tail (w.withInputs env.inputs) = .ok (status, out) d.world ∧
    ownPackets cid d.layer.sent = sent ++ (statuses.map (Message.keepalive cid)).flatMap Message.packets ++
      Message.packets ⟨cid, ctaphidCbor, UInt16.ofNat (out.length + 1), [[statusByte status], out]⟩
  empty : d.layer.buffer.status = .empty
  idle : d.isBusy = false

section Packets

variable {version : Version} {P : Platform} {env : Env} {d d' : Device} {pkt : Packet} {cid : UInt32}
  {payload : List UInt8} {t n k : Nat} {w : World} {sent : List Packet} {l : Layer}

theorem Device.Awaits.buffering (h : d.Awaits cid payload t w sent n k) (hn : n < payload.length) :
    d.layer.buffer.status = .buffering := by
  rw [h.receiving.status_eq (List.ne_nil_of_length_pos (by omega)), if_neg (by omega)]

theorem Device.Awaits.checkTimeouts (h : d.Awaits cid payload t w sent n k)
    (hwithin : d.layer.Within t d.layer.ticks d.checkTimeouts.layer.ticks) :
    d.checkTimeouts.Awaits cid payload t w sent n k := by
  have hspares := checkTimeoutsLoop_spares h.neverBack h.fresh hwithin
  have hbuffer : d.checkTimeouts.layer.buffer = d.layer.buffer := hspares.buffer h.receiving.cid_eq
  refine ⟨?_, ?_, ?_, ?_, h.idle, h.world, hspares.sent.trans h.sent⟩
  · rw [hbuffer]
    exact h.receiving
  · exact (cidExists_checkTimeoutsLoop d.layer.cids d.layer cid).trans h.known
  · exact hspares.fresh.later rfl le_rfl
  · intro i j hij
    show (checkTimeoutsLoop d.layer.cids d.layer).2.clock i ≤ (checkTimeoutsLoop d.layer.cids d.layer).2.clock j
    rw [hspares.clock]
    exact h.neverBack i j hij

/-- A packet of another channel. -/
theorem Device.Awaits.foreign (h : d.Awaits cid payload t w sent n k) (hn : n < payload.length)
    (hcid : pkt.cid ≠ cid) (hinit : pkt.isInitPkt = false)
    (hp : ctaphidHandlePacket version P env d pkt = .ok d') :
    d'.Awaits cid payload t w sent n k ∧ d'.layer.clock = d.layer.clock ∧ d'.layer.ticks = d.layer.ticks := by
  have hst := h.buffering hn
  have hother : pkt.cid ≠ d.layer.buffer.cid := by rwa [h.receiving.cid_eq]
  obtain ⟨r, hr⟩ := foreign_packet version hst hother hinit
  have hcases : r.status = .hidIgnore ∨
      (r.status = .hidError ∧ r.cid = pkt.cid ∧ r.cmd ≠ ctap1ErrInvalidSeq) := by
    generalize hl : d.layer = l at hr hst hother
    generalize hl' : some (r, l) = x at hr
    obtain ⟨l', rfl⟩ : ∃ l', x = some (r, l') := ⟨l, hl'.symm⟩
    cases bufferStep_of_eq hr with
    | initRefused hinit' => exact absurd (hinit.symm.trans hinit') (by simp)
    | init hinit' => exact absurd (hinit.symm.trans hinit') (by simp)
    | refused _ he => exact .inr ⟨rfl, rfl, he⟩
    | restarted _ _ hown => exact absurd hown hother
    | ignored => exact .inl rfl
    | tooLong _ hst' => exact absurd hst hst'
    | first _ _ _ hst' => exact absurd hst hst'
    | next _ _ _ _ hown => exact absurd hown hother
    | outOfSequence _ hown => exact absurd hown hother
  rcases hcases with hst' | ⟨hst', hrcid, hrcmd⟩
  · rw [handlePacket_ignored hr hst'] at hp
    obtain rfl := Except.ok.inj hp
    exact ⟨h, rfl, rfl⟩
  · rw [handlePacket_error hr hst', hrcid] at hp
    obtain rfl := Except.ok.inj hp
    unfold handleError
    simp only [if_neg hrcmd, cidDel_eq]
    have hnone : ownPackets cid (Message.error pkt.cid r.cmd).packets = [] :=
      ownPackets_of_none fun p hp => by rwa [error_packets_cid hp]
    refine ⟨⟨h.receiving, ?_, h.fresh.released.later rfl le_rfl, h.neverBack, h.idle, h.world, ?_⟩, rfl, rfl⟩
    · exact cidExists_released.trans h.known
    · simp [Layer.send, hnone, h.sent]

/-- A packet of the message that is not the last one. -/
theorem Device.Awaits.more (h : Device.Awaits cid payload t w sent n k { d with layer := l })
    (hn : n < payload.length)
    (hpkt : ctaphidBufferPacket version d.layer pkt
      = some (⟨l.buffer.status, cid, l.buffer.cmd, l.buffer.bcnt⟩, l))
    (hp : ctaphidHandlePacket version P env d pkt = .ok d') :
    d'.Awaits cid payload t w sent n k := by
  have hst : l.buffer.status = .buffering := h.buffering hn
  rw [handlePacket_buffering hpkt hst] at hp
  obtain rfl := Except.ok.inj hp
  have hfresh : l.millis.2.Fresh cid t l.cids := h.fresh.later rfl (Nat.le_succ _)
  exact ⟨h.receiving, h.known, hfresh, h.neverBack, h.idle, h.world, h.sent⟩

/-- What `CTAPHID_CBOR` does with a message. -/
theorem handleCbor_answered {cmd : UInt8} {len : UInt16} {done : Bool} (hbusy : d.isBusy = false)
    (hlen : len ≠ 0) (h : handleCbor P env d cid cmd len = .ok (done, d')) :
    done = true ∧ ∃ (status : CtapStatus) (out statuses : List UInt8) (w' : World),
      ctapRequest P ((d.message len).headD 0) (d.message len).tail (d.world.withInputs env.inputs)
        = .ok (status, out) w' ∧ out.length ≤ 1200 ∧
      d' = { d with
        world := w'
        layer := d.layer.send (statuses.map (Message.keepalive cid) ++
          [⟨cid, cmd, UInt16.ofNat (out.length + 1), [[statusByte status], out]⟩]) } := by
  unfold handleCbor refuse at h
  rw [if_neg hlen, if_neg (by simp [hbusy])] at h
  obtain ⟨⟨⟨status, out⟩, d₁⟩, hrun, h⟩ := except_bind_eq_ok.mp h
  obtain ⟨w', hw, rfl⟩ := Device.run_eq_ok hrun
  have hfits : out.length ≤ 1200 := ctapRequest_fits _ _ _ hw
  dsimp only at h
  rw [if_neg (by omega)] at h
  obtain ⟨rfl, rfl⟩ := Prod.mk.inj (Except.ok.inj h)
  refine ⟨rfl, status, out, ctaphidStatusProcessing :: presenceStatuses env.polls 0 w'.trace, w', hw, hfits, ?_⟩
  unfold Device.sendStatuses Device.send Layer.send
  simp only [List.flatMap_append, List.append_assoc, List.flatMap_cons, List.flatMap_nil, List.append_nil,
    hbusy]

theorem handleCommand_cbor (d : Device) (cid : UInt32) (len : UInt16) :
    handleCommand version P env d cid ctaphidCbor len = handleCbor P env d cid ctaphidCbor len := by
  unfold handleCommand
  rw [if_neg (by decide), if_neg (by decide), if_neg (by decide), if_pos rfl]

/-- The last packet of the message. -/
theorem Device.Awaits.complete (h : Device.Awaits cid payload t w sent payload.length k { d with layer := l })
    (hne : payload ≠ [])
    (hpkt : ctaphidBufferPacket version d.layer pkt
      = some (⟨l.buffer.status, cid, l.buffer.cmd, l.buffer.bcnt⟩, l))
    (hp : ctaphidHandlePacket version P env d pkt = .ok d') :
    d'.Answered P env cid payload w sent ∧ d'.layer.NeverBack ∧ d'.layer.Fresh cid t d'.layer.cids := by
  have hrec : Receiving cid ctaphidCbor payload payload.length k l.buffer := h.receiving
  have hst : l.buffer.status = .buffered := by rw [hrec.status_eq hne, if_pos rfl]
  obtain ⟨-, hcmd, hbcnt, hdata⟩ := hrec.complete
  have hlen : l.buffer.bcnt ≠ 0 := by
    intro hzero
    rw [hzero] at hbcnt
    exact hne (List.length_eq_zero_iff.mp hbcnt.symm)
  rw [handlePacket_complete hpkt (.inr hst), hcmd, handleCommand_cbor] at hp
  obtain ⟨⟨done, d₁⟩, hcbor, hp⟩ := except_bind_eq_ok.mp hp
  obtain ⟨rfl, status, out, statuses, w', hrun, hfits, rfl⟩ := handleCbor_answered h.idle hlen hcbor
  have hmessage : Device.message { d with layer := l } l.buffer.bcnt = payload := hdata
  have hworld : d.world = w := h.world
  rw [hmessage] at hrun
  dsimp only at hrun hp
  rw [if_pos rfl] at hp
  obtain rfl := Except.ok.inj hp
  have hkeep : ∀ p ∈ (statuses.map (Message.keepalive cid)).flatMap Message.packets, p.cid = cid :=
    (keepalives_replies cid statuses).2
  have hplain :
      Message.Plain ⟨cid, ctaphidCbor, UInt16.ofNat (out.length + 1), [[statusByte status], out]⟩ := by
    refine ⟨by show ctaphidCbor &&& typeInit ≠ 0; decide, ?_⟩
    show ([[statusByte status], out].flatten).length ≤ 1344
    simp
    omega
  unfold Device.release
  simp only [cidDel_eq]
  refine ⟨⟨⟨status, out, statuses, ?_, ?_⟩, rfl, h.idle⟩, h.neverBack, h.fresh.released.later rfl le_rfl⟩
  · rw [← hworld]
    exact hrun
  · have hsent : ownPackets cid l.sent = sent := h.sent
    show ownPackets cid (l.sent ++ _) = _
    rw [ownPackets_append, hsent, List.flatMap_append, ownPackets_append, ownPackets_of_all hkeep,
      List.append_assoc, List.flatMap_singleton, ownPackets_of_all hplain.replies_packets.2]

theorem Device.Answered.checkTimeouts (h : d.Answered P env cid payload w sent) (hmono : d.layer.NeverBack)
    (hfresh : d.layer.Fresh cid t d.layer.cids)
    (hwithin : d.layer.Within t d.layer.ticks d.checkTimeouts.layer.ticks) :
    d.checkTimeouts.Answered P env cid payload w sent := by
  obtain ⟨status, out, statuses, hrun, hsent⟩ := h.run
  have hspares := checkTimeoutsLoop_spares hmono hfresh hwithin
  refine ⟨⟨status, out, statuses, hrun, hspares.sent.trans hsent⟩, ?_, h.idle⟩
  show (checkTimeoutsLoop d.layer.cids d.layer).2.buffer.status = .empty
  rcases checkTimeoutsLoop_buffer d.layer.cids d.layer with hb | hb
  · rw [hb]
    exact h.empty
  · rw [hb]
    rfl

theorem checkTimeouts_timer (d : Device) : d.layer.ticks ≤ d.checkTimeouts.layer.ticks :=
  (checkTimeoutsLoop_timer d.layer.cids d.layer).2

/-- The timer is not read less often than to take the packet. -/
theorem handlePacket_timer (hbusy : d.isBusy = false) (hcmd : l.buffer.cmd = ctaphidCbor)
    (hlen : l.buffer.bcnt ≠ 0)
    (hpkt : ctaphidBufferPacket version d.layer pkt
      = some (⟨l.buffer.status, cid, l.buffer.cmd, l.buffer.bcnt⟩, l))
    (hp : ctaphidHandlePacket version P env d pkt = .ok d') :
    d'.layer.clock = l.clock ∧ l.ticks ≤ d'.layer.ticks := by
  rcases l.buffer.status_cases with hst | hst
  · rw [handlePacket_buffering hpkt hst] at hp
    obtain rfl := Except.ok.inj hp
    exact ⟨rfl, Nat.le_succ _⟩
  · rw [handlePacket_complete hpkt hst, hcmd, handleCommand_cbor] at hp
    obtain ⟨⟨done, d₁⟩, hcbor, hp⟩ := except_bind_eq_ok.mp hp
    obtain ⟨rfl, status, out, statuses, w', -, -, rfl⟩ :=
      handleCbor_answered (d := { d with layer := l }) hbusy hlen hcbor
    dsimp only at hp
    rw [if_pos rfl] at hp
    obtain rfl := Except.ok.inj hp
    unfold Device.release
    simp only [cidDel_eq]
    exact ⟨rfl, le_rfl⟩

/-- A packet of the message that is taken, in a round within the time.  The channel was in the table of `s`. -/
theorem own_packet {s : Layer} {b : Buffer}
    (hpkt : ctaphidBufferPacket version d.layer pkt = some (⟨b.status, cid, b.cmd, b.bcnt⟩, s.took b cid))
    (hrec : Receiving cid ctaphidCbor payload n k b) (hne : payload ≠ []) (hknown : cidExists s.cids cid = true)
    (hclock : s.clock = d.layer.clock) (hticks : d.layer.ticks ≤ s.ticks)
    (hfresh : (∀ i, d.layer.ticks ≤ i → i ≤ s.ticks → t ≤ (d.layer.clock i).toNat) → s.Fresh cid t s.cids)
    (hsent : ownPackets cid s.sent = sent) (hmono : d.layer.NeverBack) (hidle : d.isBusy = false)
    (hworld : d.world = w) (hp : ctaphidHandlePacket version P env d pkt = .ok d')
    (hwithin : d.layer.Within t d.layer.ticks d'.checkTimeouts.layer.ticks) :
    (n < payload.length → d'.checkTimeouts.Awaits cid payload t w sent n k) ∧
      (n = payload.length → d'.checkTimeouts.Answered P env cid payload w sent) := by
  have hbcnt : b.bcnt ≠ 0 := by
    intro hzero
    have hlen := hrec.bcnt_eq
    rw [hzero] at hlen
    exact hne (List.length_eq_zero_iff.mp hlen.symm)
  have hbuffer : (s.took b cid).buffer = b := took_buffer s b cid
  have hpkt' : ctaphidBufferPacket version d.layer pkt = some (⟨(s.took b cid).buffer.status, cid,
      (s.took b cid).buffer.cmd, (s.took b cid).buffer.bcnt⟩, s.took b cid) := by rwa [hbuffer]
  obtain ⟨hclock'', hafter⟩ : d'.layer.clock = (s.took b cid).clock ∧ (s.took b cid).ticks ≤ d'.layer.ticks :=
    handlePacket_timer hidle (by rw [hbuffer]; exact hrec.cmd_eq) (by rwa [hbuffer]) hpkt' hp
  obtain ⟨hknown', hclock', htook, hsent', hfresh'⟩ := took_spec (t := t) b hknown
  have htime : ∀ i, d.layer.ticks ≤ i → i ≤ s.ticks → t ≤ (d.layer.clock i).toNat := fun i hi hi' =>
    (hwithin i hi (by have := checkTimeouts_timer d'; omega)).1
  have hnow : t ≤ (s.clock s.ticks).toNat := by
    rw [hclock]
    exact htime s.ticks hticks le_rfl
  have hawaits : Device.Awaits cid payload t w sent n k { d with layer := s.took b cid } := by
    refine ⟨?_, hknown', hfresh' (hfresh htime) hnow, ?_, hidle, hworld, by rw [hsent', hsent]⟩
    · show Receiving cid ctaphidCbor payload n k (s.took b cid).buffer
      rwa [hbuffer]
    · intro i j hij
      show (s.took b cid).clock i ≤ (s.took b cid).clock j
      rw [hclock', hclock]
      exact hmono i j hij
  have hrest : d'.layer.Within t d'.layer.ticks d'.checkTimeouts.layer.ticks := by
    intro i hi hi'
    rw [hclock'', hclock', hclock]
    exact hwithin i (by omega) hi'
  refine ⟨fun hn => (hawaits.more hn hpkt' hp).checkTimeouts hrest, fun hn => ?_⟩
  subst hn
  obtain ⟨hanswered, hmono', hfresh''⟩ := hawaits.complete hne hpkt' hp
  exact hanswered.checkTimeouts hmono' hfresh'' hrest

/-- The next packet of the message. -/
theorem Device.Awaits.next (h : d.Awaits cid payload t w sent (57 + 59 * k) k)
    (hn : 57 + 59 * k < payload.length) (hshort : payload.length ≤ 1344) (hb : cid ≠ ctaphidBroadcastCid)
    (hp : ctaphidHandlePacket version P env d
      (contReport cid (UInt8.ofNat k) ((payload.drop (57 + 59 * k)).take 59)) = .ok d')
    (hwithin : d.layer.Within t d.layer.ticks d'.checkTimeouts.layer.ticks) :
    (57 + 59 * (k + 1) < payload.length →
        d'.checkTimeouts.Awaits cid payload t w sent (57 + 59 * (k + 1)) (k + 1)) ∧
      (payload.length ≤ 57 + 59 * (k + 1) → d'.checkTimeouts.Answered P env cid payload w sent) := by
  have hlen : ((payload.drop (57 + 59 * k)).take 59).length ≤ 59 := by simp
  have hcid := contReport_cid cid (UInt8.ofNat k) hlen
  have hcont : (contReport cid (UInt8.ofNat k) ((payload.drop (57 + 59 * k)).take 59)).isContPkt = true := by
    have hseq := contReport_seq cid (UInt8.ofNat k) hlen
    simp only [Packet.isContPkt, Packet.cmd, Packet.seq, beq_iff_eq] at hseq ⊢
    rw [hseq, seq_and_typeInit k (by omega)]
  obtain ⟨b, hpacket, hrec⟩ := h.receiving.packet_contReport hn hshort (by omega)
  generalize contReport cid (UInt8.ofNat k) ((payload.drop (57 + 59 * k)).take 59) = pkt
    at hp hcid hcont hpacket
  have hpkt : ctaphidBufferPacket version d.layer pkt
      = some (⟨b.status, cid, b.cmd, b.bcnt⟩, d.layer.took b cid) := by
    rw [own_cont_packet version (h.buffering hn) (hcid.trans h.receiving.cid_eq.symm) hcont (by rwa [hcid])
      (by rw [hcid]; exact h.known), acceptPacket_of_cidExists (by rw [hcid]; exact h.known), hpacket, hcid]
    rfl
  have hown := own_packet hpkt hrec (List.ne_nil_of_length_pos (by omega)) h.known rfl le_rfl (fun _ => h.fresh)
    h.sent h.neverBack h.idle h.world hp hwithin
  refine ⟨fun hmore => ?_, fun hend => hown.2 (by omega)⟩
  have hmin : min (57 + 59 * k + 59) payload.length = 57 + 59 * (k + 1) := by omega
  rw [hmin] at hown
  exact hown.1 hmore

end Packets

/-! ## Rounds -/

/-- The reports of a round. -/
def Event.packets : Event → List Packet
  | .fido data => if data.length = hidMessageSize then [Bytes.ofList 64 data] else []
  | _ => []

/-- The reports of some rounds. -/
def packetsOf (es : List (Env × Event)) : List Packet := es.flatMap fun x => x.2.packets

/-- In every round all readings of the timer lie within 750 ms from `t` on. -/
def Device.Punctual (version : Version) (P : Platform) (t : Nat) : Device → List (Env × Event) → Prop
  | _, [] => True
  | d, (env, e) :: es => ∀ d', d.round version P env e = .ok d' →
    d.layer.Within t d.layer.ticks d'.layer.ticks ∧ d'.Punctual version P t es

theorem Device.punctual_cons {version : Version} {P : Platform} {t : Nat} {d d' : Device} {env : Env}
    {e : Event} {es : List (Env × Event)} (h : d.round version P env e = .ok d') :
    d.Punctual version P t ((env, e) :: es) ↔
      d.layer.Within t d.layer.ticks d'.layer.ticks ∧ d'.Punctual version P t es := by
  refine ⟨fun hp => hp d' h, fun hp d₁ hd₁ => ?_⟩
  obtain rfl := Except.ok.inj (h.symm.trans hd₁)
  exact hp

theorem Device.punctual_of_error {version : Version} {P : Platform} {t : Nat} {d : Device} {env : Env}
    {e : Event} {es : List (Env × Event)} {stop : Halt} (h : d.round version P env e = .error stop) :
    d.Punctual version P t ((env, e) :: es) := fun d' hd' => absurd (h.symm.trans hd') (by simp)

instance Device.decidablePunctual (version : Version) (P : Platform) (t : Nat) :
    (d : Device) → (es : List (Env × Event)) → Decidable (d.Punctual version P t es)
  | _, [] => .isTrue trivial
  | d, (env, e) :: es =>
    match h : d.round version P env e with
    | .error _ => .isTrue (Device.punctual_of_error h)
    | .ok d' =>
      have := Device.decidablePunctual version P t d' es
      decidable_of_iff _ (Device.punctual_cons h).symm

/-- The last round of `es` takes a packet of the channel, with `env`. -/
def EndsWithOwn (cid : UInt32) (env : Env) (es : List (Env × Event)) : Prop :=
  ∃ e pkt, es.getLast? = some (env, e) ∧ e.packets = [pkt] ∧ pkt.cid = cid

section Rounds

variable {version : Version} {P : Platform} {env : Env} {d d' : Device} {e : Event} {es : List (Env × Event)}
  {cid : UInt32} {payload : List UInt8} {t n k : Nat} {w : World} {sent : List Packet}

theorem packetsOf_cons (x : Env × Event) (es : List (Env × Event)) :
    packetsOf (x :: es) = x.2.packets ++ packetsOf es := List.flatMap_cons ..

/-- A round takes one packet or none. -/
theorem round_cases (h : d.round version P env e = .ok d') :
    (e.packets = [] ∧ (d' = d ∨ d' = d.checkTimeouts)) ∨
      ∃ pkt d₁, e.packets = [pkt] ∧ ctaphidHandlePacket version P env d pkt = .ok d₁ ∧
        d' = d₁.checkTimeouts := by
  cases e with
  | nothing =>
    obtain rfl := Except.ok.inj h
    exact .inl ⟨rfl, .inl rfl⟩
  | cdc accepted =>
    obtain rfl := Except.ok.inj h
    cases accepted with
    | false => exact .inl ⟨rfl, .inl rfl⟩
    | true => exact .inl ⟨rfl, .inr rfl⟩
  | fido data =>
    unfold Device.round at h
    unfold Event.packets
    dsimp only at h ⊢
    split_ifs at h with hlen
    · obtain rfl := Except.ok.inj h
      exact .inl ⟨if_neg hlen, .inl rfl⟩
    · obtain ⟨d₁, hp, h⟩ := except_bind_eq_ok.mp h
      obtain rfl := Except.ok.inj h
      exact .inr ⟨_, d₁, if_pos (not_not.mp hlen), hp, rfl⟩

theorem EndsWithOwn.cons_cases {x : Env × Event} (h : EndsWithOwn cid env (x :: es)) :
    (es = [] ∧ x.1 = env ∧ ∃ pkt, x.2.packets = [pkt] ∧ pkt.cid = cid) ∨ EndsWithOwn cid env es := by
  obtain ⟨e, pkt, hlast, hpkt, hcid⟩ := h
  cases es with
  | nil =>
    obtain rfl : x = (env, e) := by simpa using hlast
    exact .inl ⟨rfl, rfl, pkt, hpkt, hcid⟩
  | cons y es => exact .inr ⟨e, pkt, by simpa using hlast, hpkt, hcid⟩

theorem EndsWithOwn.tail {x : Env × Event} (h : EndsWithOwn cid env (x :: es))
    (hother : ∀ pkt, x.2.packets = [pkt] → pkt.cid ≠ cid) : EndsWithOwn cid env es := by
  rcases h.cons_cases with ⟨-, -, pkt, hpkt, hcid⟩ | h
  · exact absurd hcid (hother pkt hpkt)
  · exact h

/-- Rounds that end with a packet of the channel have one. -/
theorem EndsWithOwn.ne_nil (h : EndsWithOwn cid env es) : ownPackets cid (packetsOf es) ≠ [] := by
  obtain ⟨e, pkt, hlast, hpkt, hcid⟩ := h
  have hmem : (env, e) ∈ es := List.mem_of_getLast? hlast
  have hin : pkt ∈ packetsOf es := List.mem_flatMap.mpr ⟨_, hmem, by simp [hpkt]⟩
  have hown : pkt ∈ ownPackets cid (packetsOf es) := List.mem_filter.mpr ⟨hin, by simpa using hcid⟩
  exact List.ne_nil_of_mem hown

/-- From an open message on, the rounds answer it. -/
theorem Device.Awaits.rounds (h : d.Awaits cid payload t w sent (57 + 59 * k) k)
    (hn : 57 + 59 * k < payload.length) (hshort : payload.length ≤ 1344) (hb : cid ≠ ctaphidBroadcastCid)
    (hown : ownPackets cid (packetsOf es) = contReports cid k (payload.drop (57 + 59 * k)))
    (hforeign : ∀ pkt ∈ packetsOf es, pkt.cid ≠ cid → pkt.isInitPkt = false) (hlast : EndsWithOwn cid env es)
    (hpunctual : d.Punctual version P t es) (hrun : d.rounds version P es = .ok d') :
    d'.Answered P env cid payload w sent := by
  induction es generalizing d k with
  | nil =>
    obtain ⟨e, pkt, hlast, -⟩ := hlast
    cases hlast
  | cons x es ih =>
    obtain ⟨env₁, e⟩ := x
    obtain ⟨d₁, hround, hrest⟩ := except_bind_eq_ok.mp hrun
    obtain ⟨hwithin, hpunctual'⟩ := hpunctual d₁ hround
    have hforeign' : ∀ pkt ∈ packetsOf es, pkt.cid ≠ cid → pkt.isInitPkt = false := fun pkt hpkt =>
      hforeign pkt (by rw [packetsOf_cons]; exact List.mem_append_right _ hpkt)
    rw [packetsOf_cons, ownPackets_append] at hown
    dsimp only at hown
    rcases round_cases hround with ⟨hnone, hd₁⟩ | ⟨pkt, d₂, hpkt, hp, rfl⟩
    · -- no packet
      have hown' : ownPackets cid (packetsOf es) = contReports cid k (payload.drop (57 + 59 * k)) := by
        rw [← hown, hnone]
        rfl
      have hlast' := hlast.tail fun pkt hpkt => absurd (hnone.symm.trans hpkt) (by simp)
      rcases hd₁ with rfl | rfl
      · exact ih h hn hown' hforeign' hlast' hpunctual' hrest
      · exact ih (h.checkTimeouts hwithin) hn hown' hforeign' hlast' hpunctual' hrest
    · rw [hpkt] at hown
      by_cases hcid : pkt.cid = cid
      · -- the next packet of the message
        have hdrop : payload.drop (57 + 59 * k) ≠ [] :=
          List.ne_nil_of_length_pos (by rw [List.length_drop]; omega)
        have hsingle : ownPackets cid [pkt] = [pkt] :=
          ownPackets_of_all fun p hp => by rwa [List.mem_singleton.mp hp]
        rw [hsingle, contReports_cons cid k hdrop, List.singleton_append, List.drop_drop] at hown
        obtain ⟨rfl, hown'⟩ := List.cons.inj hown
        have hindex : 57 + 59 * k + 59 = 57 + 59 * (k + 1) := by omega
        rw [hindex] at hown'
        obtain ⟨hawaits, hanswered⟩ := h.next hn hshort hb hp hwithin
        by_cases hmore : 57 + 59 * (k + 1) < payload.length
        · have hlast' : EndsWithOwn cid env es := by
            rcases hlast.cons_cases with ⟨rfl, -⟩ | hlast'
            · have hdrop' : payload.drop (57 + 59 * (k + 1)) ≠ [] :=
                List.ne_nil_of_length_pos (by rw [List.length_drop]; omega)
              rw [contReports_cons _ _ hdrop'] at hown'
              cases hown'
            · exact hlast'
          exact ih (hawaits hmore) hmore hown' hforeign' hlast' hpunctual' hrest
        · rcases hlast.cons_cases with ⟨rfl, rfl, -⟩ | hlast'
          · obtain rfl := Except.ok.inj hrest
            exact hanswered (by omega)
          · rw [List.drop_eq_nil_of_le (by omega), contReports_nil] at hown'
            exact absurd hown' hlast'.ne_nil
      · -- a packet of another channel
        have hinit := hforeign pkt (by rw [packetsOf_cons, hpkt]; simp) hcid
        obtain ⟨hawaits, hclock, hticks⟩ := h.foreign hn hcid hinit hp
        have hnone : ownPackets cid [pkt] = [] :=
          ownPackets_of_none fun p hp => by rwa [List.mem_singleton.mp hp]
        rw [hnone, List.nil_append] at hown
        have hlast' := hlast.tail fun pkt' hpkt' => by
          obtain rfl := List.singleton_inj.mp (hpkt.symm.trans hpkt')
          exact hcid
        have hwithin' : d₂.layer.Within t d₂.layer.ticks d₂.checkTimeouts.layer.ticks := by
          intro i hi hi'
          rw [hclock]
          exact hwithin i (hticks ▸ hi) hi'
        exact ih (hawaits.checkTimeouts hwithin') hn hown hforeign' hlast' hpunctual' hrest

end Rounds

/-! ## A simulated request -/

end TkeyFido2.Hid
