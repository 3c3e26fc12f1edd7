import TkeyFido2.Hid.Pairing

/-!
# The reserved channels

A packet on the broadcast channel is turned away unless it is a `CTAPHID_INIT`.  Channel 0 is turned
away by the `CTAPHID_INIT` branch only: elsewhere the table decides, and a table of zeroes holds
channel 0.
-/

namespace TkeyFido2.Hid

open Cbor Prog

/-- A packet on channel 0, or on the broadcast channel and no `CTAPHID_INIT`. -/
def Packet.Reserved (pkt : Packet) : Prop :=
  pkt.cid = 0 ∨ pkt.cid = ctaphidBroadcastCid ∧ pkt.isInitPkt = false

instance (pkt : Packet) : Decidable pkt.Reserved := inferInstanceAs (Decidable (_ ∨ _))

/-- The packet completes a message, so `ctaphid_handle_packet` runs a command. -/
def Dispatches (version : Version) (l : Layer) (pkt : Packet) : Prop :=
  ∃ r l', ctaphidBufferPacket version l pkt = some (r, l') ∧
    (r.status = .empty ∨ r.status = .buffered)

/-- No entry is given to the channel, and none of its entries becomes busy. -/
def KeepsOut (cid : UInt32) : List Cid → List Cid → Prop :=
  List.Forall₂ fun e e' => e'.cid = cid → e.cid = cid ∧ (e'.busy = true → e.busy = true)

/-- The packet is not served: no command runs, the buffer stays as it is, and the packet's channel does
not enter the table. -/
structure Unserved (version : Version) (P : Platform) (env : Env) (d : Device) (pkt : Packet) : Prop where
  idle : ¬ Dispatches version d.layer pkt
  kept : ∀ d', ctaphidHandlePacket version P env d pkt = .ok d' →
    d'.layer.buffer = d.layer.buffer ∧ KeepsOut pkt.cid d.layer.cids d'.layer.cids

/-- The packet does not open a message on channel 0: the buffer is in use, or the table holds
channel 0 and the message is longer than the buffer, or the table is full of other busy channels. -/
def OpensNoZero (d : Device) (pkt : Packet) : Prop :=
  pkt.cid = 0 → pkt.isInitPkt = false → pkt.isContPkt = false → d.layer.buffer.status = .empty →
    if cidExists d.layer.cids 0 = true then ctaphidBufferSize < pkt.len.toNat
    else ∀ e ∈ d.layer.cids, e.busy = true

section Table

variable {cid : UInt32} {cids : List Cid} {l : Layer} {pkt : Packet}

theorem keepsOut_refl (cid : UInt32) (cids : List Cid) : KeepsOut cid cids cids :=
  List.forall₂_same.mpr fun _ _ h => ⟨h, id⟩

theorem keepsOut_released (c cid : UInt32) (cids : List Cid) : KeepsOut c cids (released cid cids) := by
  unfold released
  cases h : updateFirst (·.cid == cid) (fun e => { e with busy := false }) cids with
  | none => exact keepsOut_refl c cids
  | some cids' =>
    obtain ⟨pre, e, post, rfl, -, -, rfl⟩ := updateFirst_eq_some h
    refine List.rel_append (keepsOut_refl c pre) (.cons ?_ (keepsOut_refl c post))
    intro he
    exact ⟨he, by simp⟩

/-- A table that keeps a channel out and did not hold it still does not. -/
theorem KeepsOut.cidExists_eq_false {cids' : List Cid} (h : KeepsOut cid cids cids')
    (hnot : cidExists cids cid = false) : cidExists cids' cid = false := by
  induction h with
  | nil => rfl
  | @cons e e' es es' he hes ih =>
    unfold cidExists at hnot ih ⊢
    rw [List.any_cons, Bool.or_eq_false_iff] at hnot ⊢
    refine ⟨?_, ih hnot.2⟩
    by_contra hcid
    have hcid' : e'.cid = cid := by simpa using hcid
    have hold : (e.cid == cid) = true := by simpa using (he hcid').1
    rw [hold] at hnot
    cases hnot.1

/-- A channel enters a table that has a free entry. -/
theorem addCid_of_free (h : ∃ e ∈ l.cids, e.busy = false) : (l.addCid cid).1 = true := by
  obtain ⟨e, he, hfree⟩ := h
  unfold Layer.addCid
  split
  · rfl
  · rename_i hnone
    have hbusy := updateFirst_eq_none hnone e he
    rw [hfree] at hbusy
    cases hbusy

theorem addCid_of_busy (h : ∀ e ∈ l.cids, e.busy = true) : (l.addCid cid).2 = l := by
  unfold Layer.addCid
  split
  · rename_i hup
    obtain ⟨pre, e, post, hcids, -, hp, -⟩ := updateFirst_eq_some hup
    have hbusy := h e (by simp [hcids])
    simp [hbusy] at hp
  · rfl

theorem enterChannel_of_busy (h : ∀ e ∈ l.cids, e.busy = true) : enterChannel l pkt = l := by
  unfold enterChannel
  split_ifs
  · exact addCid_of_busy h
  · rfl

end Table

section Packets

variable {version : Version} {P : Platform} {env : Env} {d d' : Device} {pkt : Packet} {l : Layer}

/-- What a packet that is turned away leaves: a busy flag may be cleared. -/
theorem unserved_of_refused {e : UInt8} (he : e ≠ ctap1ErrInvalidSeq)
    (h : ctaphidBufferPacket version d.layer pkt = some (⟨.hidError, pkt.cid, e, 0⟩, d.layer)) :
    Unserved version P env d pkt := by
  refine ⟨?_, ?_⟩
  · rintro ⟨r, l', hr, hst⟩
    obtain ⟨rfl, -⟩ := Prod.mk.inj (Option.some.inj (h.symm.trans hr))
    simp at hst
  · intro d' hd'
    rw [handlePacket_error h rfl] at hd'
    obtain rfl := Except.ok.inj hd'
    obtain ⟨hcids, hbuf⟩ := handleError_layer d pkt.cid e
    rw [if_neg he] at hbuf
    refine ⟨hbuf, ?_⟩
    show KeepsOut pkt.cid d.layer.cids (handleError d pkt.cid e).layer.cids
    rw [hcids]
    exact keepsOut_released pkt.cid pkt.cid d.layer.cids

theorem unserved_of_ignored
    (h : ctaphidBufferPacket version d.layer pkt = some (⟨.hidIgnore, pkt.cid, 0, 0⟩, d.layer)) :
    Unserved version P env d pkt := by
  refine ⟨?_, ?_⟩
  · rintro ⟨r, l', hr, hst⟩
    obtain ⟨rfl, -⟩ := Prod.mk.inj (Option.some.inj (h.symm.trans hr))
    simp at hst
  · intro d' hd'
    rw [handlePacket_ignored h rfl] at hd'
    obtain rfl := Except.ok.inj hd'
    exact ⟨rfl, keepsOut_refl pkt.cid d.layer.cids⟩

/-- The packets on the broadcast channel and the `CTAPHID_INIT` packets on channel 0. -/
theorem unserved_of_checked (hr : pkt.Reserved) (h : pkt.cid = ctaphidBroadcastCid ∨ pkt.isInitPkt = true) :
    Unserved version P env d pkt := by
  by_cases hinit : pkt.isInitPkt = true
  · have hcid : pkt.cid = 0 := by
      rcases hr with hcid | ⟨-, hf⟩
      · exact hcid
      · rw [hinit] at hf
        cases hf
    by_cases hlen : pkt.len = 8
    · refine unserved_of_refused (e := ctap1ErrInvalidChannel) (by decide) ?_
      simp [ctaphidBufferPacket, bufferInitPacket, hinit, hlen, hcid]
    · refine unserved_of_refused (e := ctap1ErrInvalidLength) (by decide) ?_
      simp [ctaphidBufferPacket, bufferInitPacket, hinit, hlen]
  · have hcid := h.resolve_right hinit
    refine unserved_of_refused (e := ctap1ErrInvalidChannel) (by decide) ?_
    simp [ctaphidBufferPacket, hinit, hcid]

/-- Any other packet on channel 0 is turned away while channel 0 owns no message and opens none. -/
theorem unserved_of_opensNoZero (hl : d.layer.Sound) (hown : d.layer.buffer.status = .buffering → d.layer.buffer.cid ≠ 0)
    (hcid : pkt.cid = 0) (hinit : pkt.isInitPkt = false) (hok : OpensNoZero d pkt) :
    Unserved version P env d pkt := by
  have hbroadcast : (0 : UInt32) ≠ ctaphidBroadcastCid := by decide
  have hroute : ctaphidBufferPacket version d.layer pkt = routePacket (enterChannel d.layer pkt) pkt := by
    simp [ctaphidBufferPacket, hinit, hcid, hbroadcast]
  by_cases hst : d.layer.buffer.status = .buffering
  · have hother : (0 : UInt32) ≠ d.layer.buffer.cid := (hown hst).symm
    rw [enterChannel_of_nonempty (by simp [hst])] at hroute
    by_cases hcont : pkt.isContPkt = true
    · refine unserved_of_ignored (hroute.trans ?_)
      simp [routePacket, hst, hcid, hother, hcont]
    · refine unserved_of_refused (e := ctap1ErrChannelBusy) (by decide) (hroute.trans ?_)
      simp [routePacket, hst, hcid, hother, hcont]
  have hempty : d.layer.buffer.status = .empty := by
    rcases d.layer.buffer.status_cases with h | h | h
    · exact absurd h hst
    · exact h
    · exact absurd h hl.notBuffered
  by_cases hcont : pkt.isContPkt = true
  · rw [enterChannel_of_cont hcont] at hroute
    refine unserved_of_ignored (hroute.trans ?_)
    simp [routePacket, hempty, hcont]
  have hopen := hok hcid hinit (by simpa using hcont) hempty
  by_cases hexists : cidExists d.layer.cids 0 = true
  · rw [if_pos hexists] at hopen
    rw [enterChannel_of_exists (by rw [hcid]; exact hexists)] at hroute
    refine unserved_of_refused (e := ctap1ErrInvalidLength) (by decide) (hroute.trans ?_)
    simp [routePacket, hempty, hcid, hexists, hcont, hopen]
  · rw [if_neg hexists] at hopen
    rw [enterChannel_of_busy hopen] at hroute
    refine unserved_of_refused (e := ctap1ErrChannelBusy) (by decide) (hroute.trans ?_)
    simp [routePacket, hcid, hexists, hcont]

/-- A message that is opened is dispatched or changes the buffer. -/
theorem not_unserved_of_first {s : Layer} (hempty : d.layer.buffer.status = .empty)
    (h : ctaphidBufferPacket version d.layer pkt
      = some (⟨s.buffer.status, pkt.cid, s.buffer.cmd, s.buffer.bcnt⟩, s)) :
    ¬ Unserved version P env d pkt := by
  rintro ⟨hidle, hkept⟩
  rcases s.buffer.status_cases with hst | hst
  · have hbuf : s.millis.2.buffer = d.layer.buffer := (hkept _ (handlePacket_buffering h hst)).1
    have hsame : s.buffer = d.layer.buffer := hbuf
    rw [hsame, hempty] at hst
    cases hst
  · exact hidle ⟨_, _, h, hst⟩

/-- A packet that opens a message on channel 0. -/
theorem not_unserved_of_opens (hcid : pkt.cid = 0) (hinit : pkt.isInitPkt = false)
    (hcont : pkt.isContPkt = false) (hempty : d.layer.buffer.status = .empty)
    (hopen : ¬ if cidExists d.layer.cids 0 = true then ctaphidBufferSize < pkt.len.toNat
      else ∀ e ∈ d.layer.cids, e.busy = true) :
    ¬ Unserved version P env d pkt := by
  have hbroadcast : (0 : UInt32) ≠ ctaphidBroadcastCid := by decide
  have hroute : ctaphidBufferPacket version d.layer pkt = routePacket (enterChannel d.layer pkt) pkt := by
    simp [ctaphidBufferPacket, hinit, hcid, hbroadcast]
  have hexists : cidExists (enterChannel d.layer pkt).cids pkt.cid = true := by
    by_cases hold : cidExists d.layer.cids 0 = true
    · rw [enterChannel_of_exists (by rw [hcid]; exact hold), hcid]
      exact hold
    · rw [if_neg hold] at hopen
      have hfree : ∃ e ∈ d.layer.cids, e.busy = false := by simpa using hopen
      have henter : enterChannel d.layer pkt = (d.layer.addCid pkt.cid).2 := by
        simp [enterChannel, hcid, hold, hcont, hempty]
      rw [henter]
      exact cidExists_addCid (addCid_of_free hfree)
  by_cases hlen : ctaphidBufferSize < pkt.len.toNat
  · -- the channel entered the table before the length was looked at
    have hold : cidExists d.layer.cids 0 = false := by
      by_contra hold
      rw [if_pos (by simpa using hold)] at hopen
      exact hopen hlen
    have hlong : ctaphidBufferPacket version d.layer pkt
        = some (⟨.hidError, pkt.cid, ctap1ErrInvalidLength, 0⟩, enterChannel d.layer pkt) := by
      rw [hroute]
      simp [routePacket, hexists, enterChannel_buffer, hempty, hcont, hlen]
    rintro ⟨-, hkept⟩
    have hout := (hkept _ (handlePacket_error hlong rfl)).2
    rw [(handleError_layer _ _ _).1, hcid] at hout
    have hgone := hout.cidExists_eq_false hold
    rw [cidExists_released, ← hcid, hexists] at hgone
    cases hgone
  · refine not_unserved_of_first (s := (enterChannel d.layer pkt).took (d.layer.buffer.packet pkt).2 pkt.cid)
      hempty ?_
    have hpkt := packet_of_init d.layer.buffer hcont
    rw [hroute, took_buffer]
    simp only [routePacket, hexists, enterChannel_buffer, hempty, hcont, hlen, if_true,
      reduceCtorEq, false_and, if_false, Bool.not_false]
    rw [acceptPacket_of_cidExists hexists, enterChannel_buffer, hpkt]
    rfl

/-- A packet that is taken is not on channel 0. -/
theorem Takes.cid_ne_zero {b : Buffer} {cids : List Cid} (h : Takes d.layer pkt b cids)
    (hl : d.layer.Sound) (hown : d.layer.buffer.status = .buffering → d.layer.buffer.cid ≠ 0)
    (hok : OpensNoZero d pkt) : b.cid ≠ 0 := by
  have hb := (h.taken hl).cid_eq
  rw [hb]
  cases h with
  | first hinit hcont hcid hst hlen hexists =>
    intro hzero
    have hempty : d.layer.buffer.status = .empty := by
      rcases d.layer.buffer.status_cases with h | h | h
      · exact absurd h hst
      · exact h
      · exact absurd h hl.notBuffered
    have hopen := hok hzero hinit hcont hempty
    by_cases hold : cidExists d.layer.cids 0 = true
    · rw [if_pos hold] at hopen
      omega
    · rw [if_neg hold] at hopen
      rw [enterChannel_of_busy hopen, hzero] at hexists
      exact hold hexists
  | next hcont hcid hst hself =>
    rw [hself]
    refine hown ?_
    rcases d.layer.buffer.status_cases with h | h | h
    · exact h
    · exact absurd h hst
    · exact absurd h hl.notBuffered

/-- A message under way is not one of channel 0. -/
theorem ReachedWhen.buffer_cid_ne (h : ReachedWhen version P OpensNoZero d)
    (hst : d.layer.buffer.status = .buffering) : d.layer.buffer.cid ≠ 0 := by
  induction h with
  | @start d h =>
    rw [h.2.2.1] at hst
    cases hst
  | @packet d d' h env pkt hok hp ih =>
    obtain ⟨hbusy, hl⟩ := h.reached.sound
    have hmoves := (moves_of_handle hbusy hp).2
    obtain ⟨⟨cids', last, buf', sent, clock, ticks⟩, w, busy, file⟩ := d'
    simp only at hst hmoves ⊢
    cases hmoves with
    | ignored => exact ih hst
    | refused => exact ih hst
    | tooLong => exact ih hst
    | init => simp at hst
    | aborted => simp at hst
    | served => simp at hst
    | left ht hearly => exact absurd hearly.2 (Buffer.status_eq_buffering.mp hst).1
    | buffering ht hst' => exact ht.cid_ne_zero hl ih hok
  | @timeouts d h ih =>
    have hbuf := checkTimeoutsLoop_buffer d.layer.cids d.layer
    have hbuf' : (ctaphidCheckTimeouts d.layer).buffer = d.layer.buffer ∨
        (ctaphidCheckTimeouts d.layer).buffer = d.layer.buffer.reset := hbuf
    rcases hbuf' with hbuf | hbuf
    · rw [hbuf] at hst ⊢
      exact ih hst
    · rw [hbuf] at hst
      simp at hst

/-- **The reserved channels are not served as long as no packet opens a message on channel 0**, and
the first packet that does is served. -/
theorem reserved_channel_unserved_iff (h : ReachedWhen version P OpensNoZero d) (hr : pkt.Reserved) :
    Unserved version P env d pkt ↔ OpensNoZero d pkt := by
  obtain ⟨-, hl⟩ := h.reached.sound
  constructor
  · intro hun hcid hinit hcont hempty
    by_contra hopen
    exact not_unserved_of_opens hcid hinit hcont hempty hopen hun
  · intro hok
    by_cases hchecked : pkt.cid = ctaphidBroadcastCid ∨ pkt.isInitPkt = true
    · exact unserved_of_checked hr hchecked
    · obtain ⟨hcid, hinit⟩ := not_or.mp hchecked
      have hzero : pkt.cid = 0 := hr.resolve_right fun hb => hcid hb.1
      exact unserved_of_opensNoZero hl h.buffer_cid_ne hzero (by simpa using hinit) hok

end Packets

/-- A message on channel 0 that is too long for the buffer. -/
theorem reserved_channel_unserved_iff_too_long :
    (initReport 0 ctaphidPing 1345 []).Reserved ∧
      Unserved simVersion simPlatform simEnv simDevice (initReport 0 ctaphidPing 1345 []) := by
  refine ⟨by decide +kernel, ?_⟩
  refine (reserved_channel_unserved_iff (.start simDevice_isStarted) (by decide +kernel)).mpr ?_
  intro _ _ _ _
  decide +kernel

/-- A ping on channel 0, right after the start, is dispatched. -/
theorem zero_channel_ping_is_dispatched :
    ¬ ∀ (version : Version) (P : Platform) (env : Env) (d : Device) (pkt : Packet), Reached version P d →
      pkt.Reserved → Unserved version P env d pkt := by
  intro hall
  have hun := hall simVersion simPlatform simEnv simDevice (initReport 0 ctaphidPing 4 [1, 2, 3, 4])
    (.start simDevice_isStarted) (by decide +kernel)
  have hr : (ctaphidBufferPacket simVersion {} (initReport 0 ctaphidPing 4 [1, 2, 3, 4])).map (·.1.status)
      = some .buffered := by decide +kernel
  obtain ⟨⟨r, l'⟩, hpkt, hst⟩ := Option.map_eq_some_iff.mp hr
  exact hun.idle ⟨r, l', hpkt, .inr hst⟩

end TkeyFido2.Hid
