import TkeyFido2.Ctap.Simulator
import TkeyFido2.Hid.Channels

/-!
# What holds between two packets

The buffer and the busy flag over every sequence of packets and timeouts, and the branches of the
dispatcher that no packet reaches.
-/

namespace TkeyFido2.Hid

open Cbor Prog

/-! ## Timeouts -/

section Timeouts

variable {l : Layer} {c : Cid} {cs : List Cid}

@[simp] theorem Buffer.status_reset (b : Buffer) : b.reset.status = .empty := rfl

theorem checkTimeout_buffer (c : Cid) (l : Layer) :
    (checkTimeout c l).2.buffer = l.buffer ∨ (checkTimeout c l).2.buffer = l.buffer.reset := by
  unfold checkTimeout
  split_ifs with hbusy
  · simp only
    split_ifs
    · exact .inr rfl
    · exact .inl rfl
    · exact .inl rfl
  · exact .inl rfl

theorem checkTimeoutsLoop_buffer (cs : List Cid) (l : Layer) :
    (checkTimeoutsLoop cs l).2.buffer = l.buffer ∨ (checkTimeoutsLoop cs l).2.buffer = l.buffer.reset := by
  induction cs generalizing l with
  | nil => exact .inl rfl
  | cons c cs ih =>
    have hreset : l.buffer.reset.reset = l.buffer.reset := rfl
    rcases checkTimeout_buffer c l with hc | hc
    · rcases ih (checkTimeout c l).2 with h | h
      · exact .inl (h.trans hc)
      · exact .inr (h.trans (by rw [hc]))
    · rcases ih (checkTimeout c l).2 with h | h
      · exact .inr (h.trans hc)
      · exact .inr (h.trans (by rw [hc, hreset]))

theorem length_checkTimeoutsLoop (cs : List Cid) (l : Layer) :
    (checkTimeoutsLoop cs l).1.length = cs.length := by
  induction cs generalizing l with
  | nil => rfl
  | cons c cs ih => simp [checkTimeoutsLoop, ih]

theorem checkTimeout_cid (c : Cid) (l : Layer) : (checkTimeout c l).1.cid = c.cid := by
  unfold checkTimeout
  split_ifs
  · simp only
    split_ifs <;> rfl
  · rfl

/-- A message that survives an entry of the table keeps it. -/
theorem checkTimeout_of_buffering (h : (checkTimeout c l).2.buffer.status = .buffering)
    (hcid : c.cid = l.buffer.cid) : (checkTimeout c l).1 = c := by
  unfold checkTimeout at h ⊢
  split_ifs at h ⊢ with hbusy
  · simp only at h ⊢
    split_ifs at h ⊢ with htime
    · have hcid' : c.cid = (l.millis.2.send [.error c.cid ctap1ErrTimeout]).buffer.cid := hcid
      simp [Layer.bufferReset] at h
    · exact absurd hcid ‹_›
    · rfl
  · rfl

theorem cidExists_checkTimeoutsLoop (cs : List Cid) (l : Layer) (cid : UInt32) :
    cidExists (checkTimeoutsLoop cs l).1 cid = cidExists cs cid := by
  induction cs generalizing l with
  | nil => rfl
  | cons c cs ih =>
    have h := ih (checkTimeout c l).2
    unfold cidExists at h ⊢
    simp only [checkTimeoutsLoop, List.any_cons, checkTimeout_cid, h]

/-- A message that survives the timeouts keeps its channel's entry. -/
theorem entryOf_checkTimeoutsLoop
    (h : (checkTimeoutsLoop cs l).2.buffer.status = .buffering) :
    entryOf (checkTimeoutsLoop cs l).1 l.buffer.cid = entryOf cs l.buffer.cid := by
  induction cs generalizing l with
  | nil => rfl
  | cons c cs ih =>
    have hrest : (checkTimeoutsLoop cs (checkTimeout c l).2).2.buffer.status = .buffering := h
    have hkeep : (checkTimeout c l).2.buffer = l.buffer := by
      rcases checkTimeout_buffer c l with hc | hc
      · exact hc
      · rcases checkTimeoutsLoop_buffer cs (checkTimeout c l).2 with h' | h' <;>
          simp [h', hc] at hrest
    have ih' := ih hrest
    rw [hkeep] at ih'
    show entryOf ((checkTimeout c l).1 :: (checkTimeoutsLoop cs (checkTimeout c l).2).1) l.buffer.cid = _
    rw [entryOf_cons, entryOf_cons, checkTimeout_cid, ih']
    split_ifs with hcid
    · rw [checkTimeout_of_buffering ?_ hcid]
      rcases checkTimeoutsLoop_buffer cs (checkTimeout c l).2 with h' | h'
      · rw [← h']
        exact hrest
      · simp [h'] at hrest
    · rfl

end Timeouts

/-! ## The buffer -/

/-- The buffer and the table between two packets. -/
structure Layer.Sound (l : Layer) : Prop where
  notBuffered : l.buffer.status ≠ .buffered
  offset_le : l.buffer.offset ≤ l.buffer.bcnt.toNat
  bcnt_le : l.buffer.bcnt.toNat ≤ ctaphidBufferSize
  offset_eq : l.buffer.status = .buffering →
    (l.buffer.offset : Int) = 57 + 59 * (l.buffer.packetSeq + 1)
  cmd_ne : l.buffer.status = .buffering → l.buffer.cmd ≠ ctaphidInit
  cid_ne : l.buffer.status = .buffering → l.buffer.cid ≠ ctaphidBroadcastCid
  known : l.buffer.status = .buffering → cidExists l.cids l.buffer.cid = true
  table : l.cids.length = 9

section Sound

variable {l : Layer} {pkt : Packet} {b : Buffer} {cids : List Cid}

theorem Buffer.status_eq_empty : b.status = .empty ↔ b.bcnt = 0 := by
  unfold Buffer.status
  split_ifs with h₁ h₂
  · simp [h₁]
  · simp [h₁]
  · simp [h₁]

theorem Buffer.status_eq_buffering :
    b.status = .buffering ↔ b.bcnt ≠ 0 ∧ b.offset ≠ b.bcnt.toNat := by
  unfold Buffer.status
  split_ifs with h₁ h₂
  · simp [h₁]
  · simp [h₂]
  · simp [h₁, h₂]

theorem length_addCid (l : Layer) (cid : UInt32) : (l.addCid cid).2.cids.length = l.cids.length := by
  unfold Layer.addCid
  split
  · rename_i h
    exact length_updateFirst h
  · rfl

theorem length_enterChannel (l : Layer) (pkt : Packet) : (enterChannel l pkt).cids.length = l.cids.length := by
  unfold enterChannel
  split_ifs
  · exact length_addCid l pkt.cid
  · rfl

theorem length_cidRefresh (l : Layer) (cid : UInt32) :
    (l.cidRefresh cid).2.cids.length = l.cids.length := by
  obtain ⟨now, h⟩ := cidRefresh_cids l cid
  rw [h, length_refreshed]

theorem length_bufferInitPacket (version : Version) (l : Layer) (pkt : Packet) :
    (bufferInitPacket version l pkt).2.cids.length = l.cids.length := by
  have hreply : ∀ newcid r, (replyInit version pkt newcid r).2.cids.length = r.2.cids.length := by
    intro newcid r
    unfold replyInit
    split_ifs
    · simp
    · rfl
  unfold bufferInitPacket
  split_ifs
  · rfl
  · rfl
  · rw [hreply, length_addCid]
  · rw [hreply]
    split_ifs
    · rw [length_cidRefresh]
    · rw [length_addCid]

/-- A message that was taken from a sound layer. -/
structure Taken (pkt : Packet) (b : Buffer) : Prop where
  cid_eq : b.cid = pkt.cid
  cid_ne : b.cid ≠ ctaphidBroadcastCid
  cmd_ne : b.cmd ≠ ctaphidInit
  offset_le : b.offset ≤ b.bcnt.toNat
  bcnt_le : b.bcnt.toNat ≤ ctaphidBufferSize
  offset_eq : b.status = .buffering → (b.offset : Int) = 57 + 59 * (b.packetSeq + 1)

theorem Takes.taken (h : Takes l pkt b cids) (hl : l.Sound) : Taken pkt b := by
  cases h with
  | first hinit hcont hcid hst hlen hexists hb =>
    rw [packet_of_init _ hcont] at hb
    obtain ⟨-, rfl⟩ := Prod.mk.inj hb
    refine ⟨rfl, hcid, ?_, min_le_left _ _, hlen, ?_⟩
    · simpa [Packet.isInitPkt] using hinit
    · intro hst
      have hlong := (Buffer.status_eq_buffering.mp hst).2
      simp only at hlong ⊢
      omega
  | next hcont hcid hst hown hexists hb =>
    have hbuf : l.buffer.status = .buffering := by
      rcases l.buffer.status_cases with h | h | h
      · exact h
      · exact absurd h hst
      · exact absurd h hl.notBuffered
    have hoff := hl.offset_eq hbuf
    have hle := hl.offset_le
    rw [packet_of_cont _ hcont] at hb
    split_ifs at hb with hover hseq
    · simp at hb
    · simp at hb
    · obtain ⟨-, rfl⟩ := Prod.mk.inj hb
      refine ⟨hown.symm, hl.cid_ne hbuf, hl.cmd_ne hbuf, ?_, hl.bcnt_le, ?_⟩
      · simp only
        omega
      · intro hst
        have hmore := (Buffer.status_eq_buffering.mp hst).2
        simp only at hmore ⊢
        omega

theorem Takes.length (h : Takes l pkt b cids) : cids.length = l.cids.length := by
  cases h with
  | first => rw [length_refreshed, length_enterChannel]
  | next => rw [length_refreshed]

/-- The channel of a packet that was taken is busy. -/
theorem Takes.busy (h : Takes l pkt b cids) : ∃ e, entryOf cids pkt.cid = some e ∧ e.busy = true := by
  cases h with
  | first hinit hcont hcid hst hlen hexists hb => exact entryOf_refreshed hexists
  | next hcont hcid hst hown hexists hb => exact entryOf_refreshed hexists

/-- An empty buffer is sound. -/
theorem sound_of_empty (hst : l.buffer.bcnt = 0) (hoff : l.buffer.offset = 0) (hlen : l.cids.length = 9) :
    l.Sound := by
  have hempty : l.buffer.status = .empty := Buffer.status_eq_empty.mpr hst
  have hb : l.buffer.bcnt.toNat = 0 := by rw [hst]; rfl
  refine ⟨by simp [hempty], by omega, by omega, ?_, ?_, ?_, ?_, hlen⟩ <;> simp [hempty]

/-- What one packet does keeps the layer sound. -/
theorem Moves.sound {version : Version} {l' : Layer} (h : Moves version l pkt l'.cids l'.buffer)
    (hl : l.Sound) : l'.Sound := by
  obtain ⟨cids', last, buf', sent, clock, ticks⟩ := l'
  simp only at h
  cases h with
  | ignored => exact ⟨hl.notBuffered, hl.offset_le, hl.bcnt_le, hl.offset_eq, hl.cmd_ne, hl.cid_ne,
      hl.known, hl.table⟩
  | refused href hother =>
    refine ⟨hl.notBuffered, hl.offset_le, hl.bcnt_le, hl.offset_eq, hl.cmd_ne, hl.cid_ne, ?_, ?_⟩
    · intro hst
      rw [cidExists_released]
      exact hl.known hst
    · exact length_released.trans hl.table
  | tooLong hst hexists =>
    refine ⟨hl.notBuffered, hl.offset_le, hl.bcnt_le, hl.offset_eq, hl.cmd_ne, hl.cid_ne, ?_, ?_⟩
    · intro h
      exact absurd h hst
    · exact length_released.trans ((length_enterChannel l pkt).trans hl.table)
  | @init r l₁ hinit hacc hr =>
    have hlen : l₁.cids.length = 9 := by
      have h := length_bufferInitPacket version l pkt
      rw [hr] at h
      exact h.trans hl.table
    refine sound_of_empty rfl rfl ?_
    show (if r.status = .hidError then released pkt.cid l₁.cids else l₁.cids).length = 9
    split_ifs
    · exact length_released.trans hlen
    · exact hlen
  | aborted hinit hown => exact sound_of_empty rfl rfl (length_released.trans hl.table)
  | buffering ht hst =>
    have hb := ht.taken hl
    obtain ⟨e, he, -⟩ := ht.busy
    refine ⟨by simp [hst], hb.offset_le, hb.bcnt_le, hb.offset_eq, fun _ => hb.cmd_ne,
      fun _ => hb.cid_ne, fun _ => ?_, ht.length.trans hl.table⟩
    exact cidExists_iff.mpr ⟨e, hb.cid_eq ▸ he⟩
  | served ht hst hend => exact sound_of_empty rfl rfl (length_released.trans (ht.length.trans hl.table))
  | left ht hearly =>
    have hb := ht.taken hl
    have hzero := hb.offset_le
    rw [hearly.2] at hzero
    exact sound_of_empty hearly.2 (Nat.le_zero.mp hzero) (ht.length.trans hl.table)

theorem sound_checkTimeouts (hl : l.Sound) : (ctaphidCheckTimeouts l).Sound := by
  have hlen : (ctaphidCheckTimeouts l).cids.length = 9 :=
    (length_checkTimeoutsLoop l.cids l).trans hl.table
  rcases checkTimeoutsLoop_buffer l.cids l with h | h
  · have hbuf : (ctaphidCheckTimeouts l).buffer = l.buffer := h
    have hknown : cidExists (ctaphidCheckTimeouts l).cids l.buffer.cid = cidExists l.cids l.buffer.cid :=
      cidExists_checkTimeoutsLoop l.cids l l.buffer.cid
    refine ⟨?_, ?_, ?_, ?_, ?_, ?_, ?_, hlen⟩ <;> rw [hbuf]
    · exact hl.notBuffered
    · exact hl.offset_le
    · exact hl.bcnt_le
    · exact hl.offset_eq
    · exact hl.cmd_ne
    · exact hl.cid_ne
    · rw [hknown]
      exact hl.known
  · have hbuf : (ctaphidCheckTimeouts l).buffer = l.buffer.reset := h
    exact sound_of_empty (by rw [hbuf]; rfl) (by rw [hbuf]; rfl) hlen

end Sound

/-- In every state between two packets the layer is sound and the device is not busy. -/
theorem Reached.sound {version : Version} {P : Platform} {d : Device} (h : Reached version P d) :
    d.isBusy = false ∧ d.layer.Sound := by
  induction h with
  | @start d h =>
    obtain ⟨hcids, -, hbuf, hbusy, -⟩ := h
    exact ⟨hbusy, sound_of_empty (by rw [hbuf]) (by rw [hbuf]) (by rw [hcids]; rfl)⟩
  | packet h env pkt hp ih =>
    obtain ⟨hbusy, hmoves⟩ := moves_of_handle ih.1 hp
    exact ⟨hbusy, hmoves.sound ih.2⟩
  | timeouts h ih => exact ⟨ih.1, sound_checkTimeouts ih.2⟩

/-! ## A simulated device -/

/-- A user who touches the device at once. -/
def simEnv : Env := ⟨simInputs fun _ => true, fun _ => 0⟩

def simVersion : Version := (1, 0, 0)

/-- The device after its first start. -/
def simDevice : Device where
  layer := {}
  world := simStart

theorem simDevice_isStarted : simDevice.IsStarted simPlatform := by
  have hw : simDevice.world = simStart := by simp only [simDevice]
  unfold Device.IsStarted
  rw [hw]
  refine ⟨?_, ?_, ?_, ?_, [], run_simStart⟩ <;> simp only [simDevice]

/-- Packets handled one after the other. -/
def handleAll (version : Version) (P : Platform) (env : Env) (d : Device) (pkts : List Packet) :
    Except Halt Device :=
  pkts.foldlM (ctaphidHandlePacket version P env) d

theorem Reached.handleAll {version : Version} {P : Platform} {env : Env} {d d' : Device}
    {pkts : List Packet} (h : Reached version P d) (hp : handleAll version P env d pkts = .ok d') :
    Reached version P d' := by
  induction pkts generalizing d with
  | nil =>
    obtain rfl := Except.ok.inj hp
    exact h
  | cons pkt pkts ih =>
    obtain ⟨d₁, hd₁, hp⟩ := except_bind_eq_ok.mp hp
    exact ih (h.packet env pkt hd₁) hp

/-- What the simulated device does with some packets. -/
def simHandle (pkts : List Packet) : Option Device :=
  (handleAll simVersion simPlatform simEnv simDevice pkts).toOption

theorem reached_of_simHandle {pkts : List Packet} {d : Device} (h : d ∈ simHandle pkts) :
    Reached simVersion simPlatform d := by
  unfold simHandle at h
  cases hp : handleAll simVersion simPlatform simEnv simDevice pkts with
  | ok d' =>
    rw [hp] at h
    obtain rfl : d' = d := Option.some.inj h
    exact (Reached.start simDevice_isStarted).handleAll hp
  | error e =>
    rw [hp] at h
    cases h

/-- The first packet of a message of 100 bytes on channel 2. -/
def simOpening : Packet := initReport 2 ctaphidCbor 100 [4]

theorem handlePacket_of_simHandle {pkt : Packet} {d : Device} (h : d ∈ simHandle [pkt]) :
    ctaphidHandlePacket simVersion simPlatform simEnv simDevice pkt = .ok d := by
  unfold simHandle handleAll at h
  rw [List.foldlM_cons] at h
  cases hp : ctaphidHandlePacket simVersion simPlatform simEnv simDevice pkt with
  | ok d' =>
    rw [hp] at h
    exact congrArg _ (Option.some.inj h)
  | error e =>
    rw [hp] at h
    cases h

/-! ## The buffer in every run -/

/-- The destination and the size of the `memmove` in `buffer_packet`. -/
def Buffer.copyRange (b : Buffer) (pkt : Packet) : Nat × Nat :=
  if pkt.isContPkt then (b.offset, min (b.bcnt.toNat - b.offset) ctaphidContPayloadSize)
  else (0, min pkt.len.toNat ctaphidInitPayloadSize)

/-- The source of the `memmove` in `buffer_packet`. -/
def Packet.payload (pkt : Packet) : List UInt8 :=
  if pkt.isContPkt then pkt.contPayload else pkt.initPayload

theorem packet_data {b b' : Buffer} {pkt : Packet} (h : b.packet pkt = (false, b')) :
    b'.data = b.data.patch (b.copyRange pkt).1 (pkt.payload.take (b.copyRange pkt).2) := by
  unfold Buffer.copyRange Packet.payload
  by_cases hcont : pkt.isContPkt = true
  · rw [packet_of_cont _ hcont] at h
    split_ifs at h
    · simp at h
    · simp at h
    · obtain ⟨-, rfl⟩ := Prod.mk.inj h
      rw [if_pos hcont, if_pos hcont]
      rfl
  · rw [packet_of_init _ (by simpa using hcont)] at h
    obtain ⟨-, rfl⟩ := Prod.mk.inj h
    rw [if_neg hcont, if_neg hcont]
    rfl

theorem copyRange_le {l : Layer} (hl : l.Sound) (pkt : Packet) :
    (l.buffer.copyRange pkt).1 + (l.buffer.copyRange pkt).2 ≤ ctaphidBufferSize := by
  have hoff := hl.offset_le
  have hle := hl.bcnt_le
  have hsize : ctaphidBufferSize = 1344 := rfl
  have hinit : ctaphidInitPayloadSize = 57 := rfl
  unfold Buffer.copyRange
  split_ifs
  · simp only
    omega
  · simp only
    omega

/-- No `CTAPHID_INIT` reaches the dispatcher. -/
theorem received_cmd_ne {version : Version} {l l' : Layer} {pkt : Packet} {r : Received} (hl : l.Sound)
    (h : ctaphidBufferPacket version l pkt = some (r, l'))
    (hst : r.status = .empty ∨ r.status = .buffered) : r.cmd ≠ ctaphidInit := by
  cases bufferStep_of_eq h with
  | initRefused => simp at hst
  | init hinit hacc hr =>
    obtain ⟨-, -, hs⟩ := bufferInitPacket_received version l pkt
    rw [hr] at hs
    rcases hs with hs | hs <;> rw [hs] at hst <;> simp at hst
  | refused => simp at hst
  | restarted => simp at hst
  | ignored => simp at hst
  | tooLong => simp at hst
  | first hinit hcont hcid hfree hlen hexists hb =>
    have ht : Takes l pkt _ (refreshed pkt.cid 0 _) := .first hinit hcont hcid hfree hlen hexists hb
    exact (ht.taken hl).cmd_ne
  | next hinit hcont hcid hmore hown hexists hb =>
    have ht : Takes l pkt _ (refreshed pkt.cid 0 _) := .next hcont hcid hmore hown hexists hb
    exact (ht.taken hl).cmd_ne
  | outOfSequence => simp at hst

/-- **The buffer between two packets**, for every sequence of packets and timeouts, and the branches
that are never taken. -/
theorem layer_sound_between_packets {version : Version} {P : Platform} {d : Device}
    (h : Reached version P d) :
    d.isBusy = false ∧
    (d.layer.buffer.status = .empty ∨ d.layer.buffer.status = .buffering) ∧
    d.layer.buffer.offset ≤ d.layer.buffer.bcnt.toNat ∧
    d.layer.buffer.bcnt.toNat ≤ 1344 ∧
    (d.layer.buffer.status = .buffering →
      (d.layer.buffer.offset : Int) = 57 + 59 * (d.layer.buffer.packetSeq + 1)) ∧
    (∀ pkt, (d.layer.buffer.copyRange pkt).1 + (d.layer.buffer.copyRange pkt).2 ≤ 1344 ∧
      ∀ b, d.layer.buffer.packet pkt = (false, b) →
        b.data = d.layer.buffer.data.patch (d.layer.buffer.copyRange pkt).1
          (pkt.payload.take (d.layer.buffer.copyRange pkt).2)) ∧
    (∀ pkt, ∃ r l, ctaphidBufferPacket version d.layer pkt = some (r, l) ∧
      (r.status = .empty ∨ r.status = .buffered →
        r.cmd ≠ ctaphidInit ∧
        refuse { d with layer := l } r.cid r.len
          = if r.len = 0 then some (.error r.cid ctap1ErrInvalidLength) else none)) ∧
    (∀ env cmd msg status data w,
      ctapRequest P cmd msg (d.world.withInputs env) = .ok (status, data) w → data.length ≤ 1200) ∧
    (∀ env buf data buf' w,
      u2fRequest P buf (d.world.withInputs env) = .ok (data, buf') w → data.length ≤ 1200) := by
  obtain ⟨hbusy, hl⟩ := h.sound
  refine ⟨hbusy, ?_, hl.offset_le, hl.bcnt_le, hl.offset_eq, ?_, ?_, ?_, ?_⟩
  · rcases d.layer.buffer.status_cases with hst | hst | hst
    · exact .inr hst
    · exact .inl hst
    · exact absurd hst hl.notBuffered
  · exact fun pkt => ⟨copyRange_le hl pkt, fun b hb => packet_data hb⟩
  · intro pkt
    cases hpkt : ctaphidBufferPacket version d.layer pkt with
    | none => exact absurd hpkt (ctaphidBufferPacket_ne_none _ _ _)
    | some x =>
      obtain ⟨r, l⟩ := x
      refine ⟨r, l, rfl, fun hst => ⟨received_cmd_ne hl hpkt hst, ?_⟩⟩
      simp only [refuse, hbusy, Bool.false_eq_true, if_false]
  · intro env cmd msg status data w hw
    exact ctapRequest_fits _ _ _ hw
  · intro env buf data buf' w hw
    exact u2fRequest_fits _ _ _ hw

/-- A message under way. -/
theorem layer_sound_between_packets_opening : ∃ d, Reached simVersion simPlatform d ∧
    d.layer.buffer.status = .buffering ∧
    (d.layer.buffer.offset : Int) = 57 + 59 * (d.layer.buffer.packetSeq + 1) := by
  obtain ⟨d, hd, hst⟩ : ∃ d ∈ simHandle [simOpening], d.layer.buffer.status = .buffering := by
    decide +kernel
  have h := reached_of_simHandle hd
  exact ⟨d, h, hst, (layer_sound_between_packets h).2.2.2.2.1 hst⟩

end TkeyFido2.Hid
