import TkeyFido2.Ctap.ResponseSize
import TkeyFido2.Hid.Handler
import TkeyFido2.Hid.Reassembly

/-!
# The channel table and the buffer, packet by packet

Every way in which `ctaphid_buffer_packet` can end, what the dispatcher leaves of the layer, and the
invariant of the buffer that follows for every sequence of packets and timeouts.
-/

namespace TkeyFido2.Hid

open Cbor Prog

/-! ## The table -/

section Table

variable {p : Cid → Bool} {f : Cid → Cid} {cids cids' : List Cid} {cid c : UInt32}

theorem updateFirst_eq_some (h : updateFirst p f cids = some cids') :
    ∃ pre e post, cids = pre ++ e :: post ∧ (∀ x ∈ pre, p x = false) ∧ p e = true ∧
      cids' = pre ++ f e :: post := by
  induction cids generalizing cids' with
  | nil => simp [updateFirst] at h
  | cons e es ih =>
    unfold updateFirst at h
    by_cases hp : p e = true
    · rw [if_pos hp, Option.some.injEq] at h
      exact ⟨[], e, es, rfl, by simp, hp, h.symm⟩
    · rw [if_neg hp] at h
      obtain ⟨es', hes, rfl⟩ := Option.map_eq_some_iff.mp h
      obtain ⟨pre, x, post, rfl, hpre, hx, rfl⟩ := ih hes
      refine ⟨e :: pre, x, post, rfl, ?_, hx, rfl⟩
      simp only [List.mem_cons, forall_eq_or_imp]
      exact ⟨by simpa using hp, hpre⟩

theorem updateFirst_eq_none (h : updateFirst p f cids = none) : ∀ e ∈ cids, p e = false := by
  induction cids with
  | nil => simp
  | cons e es ih =>
    unfold updateFirst at h
    by_cases hp : p e = true
    · simp [hp] at h
    · rw [if_neg hp, Option.map_eq_none_iff] at h
      simp only [List.mem_cons, forall_eq_or_imp]
      exact ⟨by simpa using hp, ih h⟩

/-- The entry that `cid_refresh` and `cid_del` find. -/
def entryOf (cids : List Cid) (cid : UInt32) : Option Cid := cids.find? (·.cid == cid)

theorem entryOf_cons (e : Cid) : entryOf (e :: cids) cid = if e.cid = cid then some e else entryOf cids cid := by
  unfold entryOf
  by_cases h : e.cid = cid <;> simp [h]

theorem entryOf_append_cons {pre post : List Cid} {e : Cid} (hpre : ∀ x ∈ pre, x.cid ≠ cid)
    (he : e.cid = cid) : entryOf (pre ++ e :: post) cid = some e := by
  unfold entryOf
  rw [List.find?_append, List.find?_eq_none.mpr (by simpa using hpre)]
  simp [he]

theorem cidExists_iff : cidExists cids cid = true ↔ ∃ e, entryOf cids cid = some e := by
  unfold cidExists entryOf
  rw [← Option.isSome_iff_exists, List.find?_isSome]
  simp

/-- Updating the first entry of a channel updates what the lookups find. -/
theorem entryOf_updateFirst_self (h : updateFirst (·.cid == cid) f cids = some cids')
    (hf : ∀ e, (f e).cid = e.cid) :
    entryOf cids' cid = (entryOf cids cid).map f := by
  obtain ⟨pre, e, post, rfl, hpre, he, rfl⟩ := updateFirst_eq_some h
  have hpre' : ∀ x ∈ pre, x.cid ≠ cid := fun x hx => by simpa using hpre x hx
  have he' : e.cid = cid := by simpa using he
  rw [entryOf_append_cons hpre' he', entryOf_append_cons hpre' ((hf e).trans he')]
  rfl

theorem entryOf_updateFirst_of_ne (h : updateFirst (·.cid == cid) f cids = some cids')
    (hf : ∀ e, (f e).cid = e.cid) (hne : c ≠ cid) : entryOf cids' c = entryOf cids c := by
  obtain ⟨pre, e, post, rfl, -, he, rfl⟩ := updateFirst_eq_some h
  have he' : e.cid ≠ c := by
    rintro rfl
    exact hne (by simpa using he)
  have hfe : (f e).cid ≠ c := by rwa [hf]
  unfold entryOf
  rw [List.find?_append, List.find?_append, List.find?_cons_of_neg (by simpa using hfe),
    List.find?_cons_of_neg (by simpa using he')]

end Table

/-- The table after `cid_del`. -/
def released (cid : UInt32) (cids : List Cid) : List Cid :=
  (updateFirst (·.cid == cid) (fun e => { e with busy := false }) cids).getD cids

/-- The table after `cid_refresh` at a time. -/
def refreshed (cid : UInt32) (now : UInt64) (cids : List Cid) : List Cid :=
  (updateFirst (·.cid == cid) (fun e => { e with lastUsed := now, busy := true }) cids).getD cids

section TableCalls

variable {l : Layer} {cids : List Cid} {cid c : UInt32} {now : UInt64}

@[simp] theorem cidDel_cids : (l.cidDel cid).cids = released cid l.cids := by
  unfold Layer.cidDel released
  split
  · rename_i h
    rw [h]
    rfl
  · rename_i h
    rw [h]
    rfl

theorem cidRefresh_cids (l : Layer) (cid : UInt32) : ∃ now, (l.cidRefresh cid).2.cids = refreshed cid now l.cids := by
  refine ⟨l.millis.1.toUInt64, ?_⟩
  unfold Layer.cidRefresh refreshed
  split
  · rename_i h
    rw [h]
    rfl
  · rename_i h
    rw [h]
    rfl

theorem entryOf_released_of_ne (hne : c ≠ cid) : entryOf (released cid cids) c = entryOf cids c := by
  unfold released
  cases h : updateFirst (·.cid == cid) (fun e => { e with busy := false }) cids with
  | none => rfl
  | some cids' => exact entryOf_updateFirst_of_ne h (fun _ => rfl) hne

theorem length_updateFirst {p : Cid → Bool} {f : Cid → Cid} {cids' : List Cid}
    (h : updateFirst p f cids = some cids') : cids'.length = cids.length := by
  obtain ⟨pre, e, post, rfl, -, -, rfl⟩ := updateFirst_eq_some h
  simp

@[simp] theorem length_released : (released cid cids).length = cids.length := by
  unfold released
  cases h : updateFirst (·.cid == cid) (fun e => { e with busy := false }) cids with
  | none => rfl
  | some cids' => exact length_updateFirst h

@[simp] theorem length_refreshed : (refreshed cid now cids).length = cids.length := by
  unfold refreshed
  cases h : updateFirst (·.cid == cid) (fun e => { e with lastUsed := now, busy := true }) cids with
  | none => rfl
  | some cids' => exact length_updateFirst h

/-- A known channel is busy after a refresh. -/
theorem entryOf_refreshed (h : cidExists cids cid = true) :
    ∃ e, entryOf (refreshed cid now cids) cid = some e ∧ e.busy = true := by
  obtain ⟨e, he⟩ := cidExists_iff.mp h
  obtain ⟨cids', hup, -⟩ := updateFirst_of_any (p := (·.cid == cid))
    (f := fun e => { e with lastUsed := now, busy := true }) (fun _ hc => hc) h
  refine ⟨{ e with lastUsed := now, busy := true }, ?_, rfl⟩
  unfold refreshed
  rw [hup, Option.getD_some, entryOf_updateFirst_self hup fun _ => rfl, he]
  rfl

theorem cidRefresh_of_cidExists (h : cidExists l.cids cid = true) : (l.cidRefresh cid).1 = true := by
  obtain ⟨s, hs, -⟩ := cidRefresh_of_exists h
  rw [hs]

theorem cidExists_released : cidExists (released cid cids) c = cidExists cids c := by
  have hany : ∀ {cids' : List Cid}, updateFirst (·.cid == cid) (fun e => { e with busy := false }) cids
      = some cids' → cidExists cids' c = cidExists cids c := by
    intro cids' h
    obtain ⟨pre, e, post, rfl, -, -, rfl⟩ := updateFirst_eq_some h
    simp [cidExists]
  unfold released
  cases h : updateFirst (·.cid == cid) (fun e => { e with busy := false }) cids with
  | none => rfl
  | some cids' => exact hany h

theorem cidExists_addCid (h : (l.addCid cid).1 = true) : cidExists (l.addCid cid).2.cids cid = true := by
  unfold Layer.addCid at h ⊢
  split at h
  · rename_i cids hup
    obtain ⟨pre, e, post, -, -, -, rfl⟩ := updateFirst_eq_some hup
    simp [cidExists]
  · simp at h

end TableCalls

/-! ## One packet in the transport layer -/

/-- `CTAPHID_INIT` is refused for its length or its channel. -/
def Packet.RefusedInit (pkt : Packet) : Prop := pkt.len ≠ 8 ∨ pkt.cid = 0

instance (pkt : Packet) : Decidable pkt.RefusedInit := inferInstanceAs (Decidable (_ ∨ _))

/-- The layer after `buffer_packet` left `b` and the channel was refreshed. -/
def Layer.took (l : Layer) (b : Buffer) (cid : UInt32) : Layer :=
  ({ l with buffer := b }.cidRefresh cid).2

/-- What `ctaphid_buffer_packet` does. -/
inductive BufferStep (version : Version) (l : Layer) (pkt : Packet) : Received → Layer → Prop
  | initRefused {e : UInt8} (hinit : pkt.isInitPkt = true) (href : pkt.RefusedInit)
      (he : e ≠ ctap1ErrInvalidSeq) : BufferStep version l pkt ⟨.hidError, pkt.cid, e, 0⟩ l
  | init {r : Received} {l' : Layer} (hinit : pkt.isInitPkt = true) (hacc : ¬ pkt.RefusedInit)
      (h : bufferInitPacket version l pkt = (r, l')) : BufferStep version l pkt r l'
  | refused {e : UInt8} (hinit : pkt.isInitPkt = false) (he : e ≠ ctap1ErrInvalidSeq)
      (hother : l.buffer.status = .buffering → pkt.cid ≠ l.buffer.cid ∨ pkt.cid = ctaphidBroadcastCid ∨
        cidExists l.cids pkt.cid = false) :
      BufferStep version l pkt ⟨.hidError, pkt.cid, e, 0⟩ l
  | restarted (hinit : pkt.isInitPkt = false) (hst : l.buffer.status = .buffering)
      (hown : pkt.cid = l.buffer.cid) :
      BufferStep version l pkt ⟨.hidError, pkt.cid, ctap1ErrInvalidSeq, 0⟩ l
  | ignored (hinit : pkt.isInitPkt = false) : BufferStep version l pkt ⟨.hidIgnore, pkt.cid, 0, 0⟩ l
  | tooLong (hinit : pkt.isInitPkt = false) (hst : l.buffer.status ≠ .buffering)
      (hexists : cidExists (enterChannel l pkt).cids pkt.cid = true) :
      BufferStep version l pkt ⟨.hidError, pkt.cid, ctap1ErrInvalidLength, 0⟩ (enterChannel l pkt)
  | first {b : Buffer} (hinit : pkt.isInitPkt = false) (hcont : pkt.isContPkt = false)
      (hcid : pkt.cid ≠ ctaphidBroadcastCid) (hst : l.buffer.status ≠ .buffering)
      (hlen : pkt.len.toNat ≤ ctaphidBufferSize)
      (hexists : cidExists (enterChannel l pkt).cids pkt.cid = true)
      (hb : l.buffer.packet pkt = (false, b)) :
      BufferStep version l pkt ⟨b.status, pkt.cid, b.cmd, b.bcnt⟩ ((enterChannel l pkt).took b pkt.cid)
  | next {b : Buffer} (hinit : pkt.isInitPkt = false) (hcont : pkt.isContPkt = true)
      (hcid : pkt.cid ≠ ctaphidBroadcastCid) (hst : l.buffer.status ≠ .empty)
      (hown : pkt.cid = l.buffer.cid) (hexists : cidExists l.cids pkt.cid = true)
      (hb : l.buffer.packet pkt = (false, b)) :
      BufferStep version l pkt ⟨b.status, pkt.cid, b.cmd, b.bcnt⟩ (l.took b pkt.cid)
  | outOfSequence {b : Buffer} (hinit : pkt.isInitPkt = false) (hown : pkt.cid = l.buffer.cid)
      (hb : l.buffer.packet pkt = (true, b)) :
      BufferStep version l pkt ⟨.hidError, pkt.cid, ctap1ErrInvalidSeq, 0⟩ { l with buffer := b }

section Inversion

variable {version : Version} {l l' : Layer} {pkt : Packet} {r : Received}

@[simp] theorem cidDel_buffer (l : Layer) (cid : UInt32) : (l.cidDel cid).buffer = l.buffer := by
  unfold Layer.cidDel
  split <;> rfl

theorem cidRefresh_buffer (l : Layer) (cid : UInt32) : (l.cidRefresh cid).2.buffer = l.buffer := by
  unfold Layer.cidRefresh
  split <;> rfl

@[simp] theorem took_buffer (l : Layer) (b : Buffer) (cid : UInt32) : (l.took b cid).buffer = b :=
  cidRefresh_buffer _ _

theorem took_cids (l : Layer) (b : Buffer) (cid : UInt32) :
    ∃ now, (l.took b cid).cids = refreshed cid now l.cids :=
  cidRefresh_cids _ _

theorem enterChannel_of_cont (h : pkt.isContPkt = true) : enterChannel l pkt = l := by
  simp [enterChannel, h]

theorem enterChannel_of_exists (h : cidExists l.cids pkt.cid = true) : enterChannel l pkt = l := by
  simp [enterChannel, h]

theorem enterChannel_of_nonempty (h : l.buffer.status ≠ .empty) : enterChannel l pkt = l := by
  simp [enterChannel, h]

/-- A channel that could not be entered leaves the table as it was. -/
theorem enterChannel_of_full (h : cidExists (enterChannel l pkt).cids pkt.cid = false) :
    enterChannel l pkt = l := by
  unfold enterChannel at h ⊢
  split_ifs at h ⊢ with hc
  · by_cases hadd : (l.addCid pkt.cid).1 = true
    · rw [cidExists_addCid hadd] at h
      simp at h
    · unfold Layer.addCid at hadd ⊢
      split at hadd
      · simp at hadd
      · rfl
  · rfl

theorem acceptPacket_of_cidExists (h : cidExists l.cids pkt.cid = true) :
    acceptPacket l pkt = some (if (l.buffer.packet pkt).1 = true
      then (⟨.hidError, pkt.cid, ctap1ErrInvalidSeq, 0⟩, { l with buffer := (l.buffer.packet pkt).2 })
      else (⟨(l.buffer.packet pkt).2.status, pkt.cid, (l.buffer.packet pkt).2.cmd,
        (l.buffer.packet pkt).2.bcnt⟩, l.took (l.buffer.packet pkt).2 pkt.cid)) := by
  unfold acceptPacket Layer.took
  have href := cidRefresh_of_cidExists (l := { l with buffer := (l.buffer.packet pkt).2 }) h
  have hbuf := cidRefresh_buffer { l with buffer := (l.buffer.packet pkt).2 } pkt.cid
  simp only [href, hbuf, if_true]
  split_ifs <;> rfl

/-- A packet that opens a message has no sequence number. -/
theorem packet_of_init (b : Buffer) (h : pkt.isContPkt = false) :
    b.packet pkt = (false, {
      data := b.data.patch 0 (pkt.initPayload.take (min pkt.len.toNat 57))
      cid := pkt.cid
      cmd := pkt.cmd
      bcnt := pkt.len
      offset := min pkt.len.toNat 57
      packetSeq := -1 }) := by
  unfold Buffer.packet
  rw [if_pos (by simpa [Packet.isContPkt] using h)]
  rfl

/-- A continuation packet extends the message when its number is the next one. -/
theorem packet_of_cont (b : Buffer) (h : pkt.isContPkt = true) :
    b.packet pkt = if b.bcnt.toNat < b.offset then (true, b)
      else if b.packetSeq + 1 ≠ pkt.seq.toNat then (true, { b with packetSeq := b.packetSeq + 1 })
      else (false, { b with
        data := b.data.patch b.offset (pkt.contPayload.take (min (b.bcnt.toNat - b.offset) 59))
        offset := b.offset + min (b.bcnt.toNat - b.offset) 59
        packetSeq := b.packetSeq + 1 }) := by
  have hmin : (if b.bcnt.toNat - b.offset ≤ ctaphidContPayloadSize then b.bcnt.toNat - b.offset
      else ctaphidContPayloadSize) = min (b.bcnt.toNat - b.offset) 59 := by
    show (if b.bcnt.toNat - b.offset ≤ 59 then b.bcnt.toNat - b.offset else 59) = _
    split_ifs <;> omega
  unfold Buffer.packet
  rw [if_neg (by simpa [Packet.isContPkt] using h)]
  simp only [hmin]

/-- A packet that reaches `buffer_packet` is taken or out of sequence. -/
theorem bufferStep_of_accept {s : Layer} (h : acceptPacket s pkt = some (r, l'))
    (hexists : cidExists s.cids pkt.cid = true)
    (htook : ∀ b, s.buffer.packet pkt = (false, b) →
      BufferStep version l pkt ⟨b.status, pkt.cid, b.cmd, b.bcnt⟩ (s.took b pkt.cid))
    (hseq : ∀ b, s.buffer.packet pkt = (true, b) →
      BufferStep version l pkt ⟨.hidError, pkt.cid, ctap1ErrInvalidSeq, 0⟩ { s with buffer := b }) :
    BufferStep version l pkt r l' := by
  rw [acceptPacket_of_cidExists hexists, Option.some.injEq] at h
  by_cases hs : (s.buffer.packet pkt).1 = true
  · rw [if_pos hs] at h
    obtain ⟨rfl, rfl⟩ := Prod.mk.inj h
    exact hseq _ (Prod.ext hs rfl)
  · rw [if_neg hs] at h
    obtain ⟨rfl, rfl⟩ := Prod.mk.inj h
    exact htook _ (Prod.ext (by simpa using hs) rfl)

/-- The cases of `ctaphid_buffer_packet`. -/
theorem bufferStep_of_eq (h : ctaphidBufferPacket version l pkt = some (r, l')) :
    BufferStep version l pkt r l' := by
  unfold ctaphidBufferPacket at h
  by_cases hinit : pkt.isInitPkt = true
  · rw [if_pos hinit, Option.some.injEq] at h
    by_cases href : pkt.RefusedInit
    · unfold bufferInitPacket at h
      by_cases hlen : pkt.len = 8
      · rw [if_neg (by simpa using hlen), if_pos (href.resolve_left (by simpa using hlen))] at h
        obtain ⟨rfl, rfl⟩ := Prod.mk.inj h
        exact .initRefused hinit href (by decide)
      · rw [if_pos hlen] at h
        obtain ⟨rfl, rfl⟩ := Prod.mk.inj h
        exact .initRefused hinit href (by decide)
    · exact .init hinit href h
  have hinit' : pkt.isInitPkt = false := by simpa using hinit
  rw [if_neg hinit] at h
  by_cases hcid : pkt.cid = ctaphidBroadcastCid
  · rw [if_pos hcid, Option.some.injEq] at h
    obtain ⟨rfl, rfl⟩ := Prod.mk.inj h
    exact .refused hinit' (by decide) fun _ => .inr (.inl hcid)
  rw [if_neg hcid] at h
  unfold routePacket at h
  rw [enterChannel_buffer] at h
  by_cases hexists : cidExists (enterChannel l pkt).cids pkt.cid = true
  · rw [if_pos hexists] at h
    by_cases hcont : pkt.isContPkt = true
    · have hl : enterChannel l pkt = l := enterChannel_of_cont hcont
      rw [hl] at h hexists
      simp only [hcont, Bool.not_true, Bool.false_eq_true, and_false, if_false] at h
      split_ifs at h with hother hnone
      · obtain ⟨rfl, rfl⟩ := Prod.mk.inj (Option.some.inj h)
        exact .ignored hinit'
      · obtain ⟨rfl, rfl⟩ := Prod.mk.inj (Option.some.inj h)
        exact .ignored hinit'
      · obtain ⟨hst, hown⟩ := not_or.mp hnone
        exact bufferStep_of_accept h hexists (fun b hb => .next hinit' hcont hcid hst (not_not.mp hown) hexists hb)
          fun b hb => .outOfSequence hinit' (not_not.mp hown) hb
    · have hcont' : pkt.isContPkt = false := by simpa using hcont
      simp only [hcont', Bool.not_false, and_true, if_true] at h
      split_ifs at h with hown hother hlen
      · obtain ⟨rfl, rfl⟩ := Prod.mk.inj (Option.some.inj h)
        rw [enterChannel_of_nonempty (by simp [hown.1])]
        exact .restarted hinit' hown.1 hown.2
      · obtain ⟨rfl, rfl⟩ := Prod.mk.inj (Option.some.inj h)
        rw [enterChannel_of_nonempty (by simp [hother.1])]
        exact .refused hinit' (by decide) fun _ => .inl hother.2
      · obtain ⟨rfl, rfl⟩ := Prod.mk.inj (Option.some.inj h)
        exact .tooLong hinit' (fun hst => hother ⟨hst, fun hc => hown ⟨hst, hc⟩⟩) hexists
      · have hst : l.buffer.status ≠ .buffering := fun hst => hother ⟨hst, fun hc => hown ⟨hst, hc⟩⟩
        have hb := packet_of_init l.buffer hcont'
        refine bufferStep_of_accept h hexists (fun b hb => ?_) fun b hb' => ?_
        · rw [enterChannel_buffer] at hb
          exact .first hinit' hcont' hcid hst (not_lt.mp hlen) hexists hb
        · rw [enterChannel_buffer, hb] at hb'
          simp at hb'
  · rw [if_neg hexists] at h
    have hexists' : cidExists (enterChannel l pkt).cids pkt.cid = false := by simpa using hexists
    rw [enterChannel_of_full hexists'] at h hexists'
    split_ifs at h
    · obtain ⟨rfl, rfl⟩ := Prod.mk.inj (Option.some.inj h)
      exact .ignored hinit'
    · obtain ⟨rfl, rfl⟩ := Prod.mk.inj (Option.some.inj h)
      exact .refused hinit' (by decide) fun _ => .inr (.inr hexists')

/-- `ctaphid_buffer_packet` returns: the `exit(1)` of a failed refresh is never reached. -/
theorem ctaphidBufferPacket_ne_none (version : Version) (l : Layer) (pkt : Packet) :
    ctaphidBufferPacket version l pkt ≠ none := by
  unfold ctaphidBufferPacket
  split_ifs with hinit hcid
  · simp
  · simp
  · unfold routePacket
    split_ifs with hexists
    all_goals first | (rw [acceptPacket_of_cidExists hexists]; simp) | simp

end Inversion

/-! ## The dispatcher -/

section Dispatcher

variable {version : Version} {P : Platform} {env : Env} {d d' : Device} {cid : UInt32} {cmd : UInt8}
  {len : UInt16} {done : Bool}

theorem Device.run_eq_ok {α : Type} {m : CtapM α} {a : α} (h : d.run env m = .ok (a, d')) :
    ∃ w, m (d.world.withInputs env.inputs) = .ok a w ∧ d' = { d with world := w } := by
  unfold Device.run at h
  split at h
  · rename_i b w hm
    obtain ⟨rfl, rfl⟩ := Prod.mk.inj (Except.ok.inj h)
    exact ⟨w, hm, rfl⟩
  · cases h
  · cases h

/-- What a command leaves of the layer: all but the bytes of the buffer and what was sent. -/
structure Serves (d d' : Device) : Prop where
  cids : d'.layer.cids = d.layer.cids
  buffer : ∃ data, d'.layer.buffer = { d.layer.buffer with data := data }
  isBusy : d'.isBusy = false

theorem Serves.sent (h : Serves d d') (ms : List Message) : Serves d (d'.send ms) :=
  ⟨h.cids, h.buffer, h.isBusy⟩

theorem serves_of_layer (hl : d'.layer.cids = d.layer.cids) (hb : d'.layer.buffer = d.layer.buffer)
    (hbusy : d'.isBusy = false) : Serves d d' :=
  ⟨hl, ⟨d.layer.buffer.data, hb⟩, hbusy⟩

theorem handleCbor_ok (hbusy : d.isBusy = false) (h : handleCbor P env d cid cmd len = .ok (done, d')) :
    Serves d d' ∧ (done = false ↔ len = 0) := by
  unfold handleCbor refuse at h
  by_cases hlen : len = 0
  · rw [if_pos hlen] at h
    obtain ⟨rfl, rfl⟩ := Prod.mk.inj (Except.ok.inj h)
    exact ⟨serves_of_layer rfl rfl hbusy, by simp [hlen]⟩
  · rw [if_neg hlen, if_neg (by simp [hbusy])] at h
    obtain ⟨⟨⟨status, data⟩, d₁⟩, hrun, h⟩ := except_bind_eq_ok.mp h
    obtain ⟨w, hw, rfl⟩ := Device.run_eq_ok hrun
    have hfits : data.length ≤ ctapResponseBufferSize := ctapRequest_fits _ _ _ hw
    have hshort : ¬ 0xffff < data.length + 1 := by
      have : ctapResponseBufferSize = 1200 := rfl
      omega
    simp only [hshort, if_false] at h
    obtain ⟨rfl, rfl⟩ := Prod.mk.inj (Except.ok.inj h)
    exact ⟨serves_of_layer rfl rfl rfl, by simp [hlen]⟩

theorem handleMsg_ok (hbusy : d.isBusy = false) (h : handleMsg P env d cid cmd len = .ok (done, d')) :
    Serves d d' ∧ (done = false ↔ len = 0) := by
  unfold handleMsg refuse at h
  by_cases hlen : len = 0
  · rw [if_pos hlen] at h
    obtain ⟨rfl, rfl⟩ := Prod.mk.inj (Except.ok.inj h)
    exact ⟨serves_of_layer rfl rfl hbusy, by simp [hlen]⟩
  · rw [if_neg hlen, if_neg (by simp [hbusy])] at h
    obtain ⟨⟨⟨data, buf⟩, d₁⟩, hrun, h⟩ := except_bind_eq_ok.mp h
    obtain ⟨w, hw, rfl⟩ := Device.run_eq_ok hrun
    have hfits : data.length ≤ ctapResponseBufferSize := u2fRequest_fits _ _ _ hw
    have hshort : ¬ 0xffff < data.length := by
      have : ctapResponseBufferSize = 1200 := rfl
      omega
    simp only [hshort, if_false] at h
    obtain ⟨rfl, rfl⟩ := Prod.mk.inj (Except.ok.inj h)
    refine ⟨⟨?_, ?_, rfl⟩, by simp [hlen]⟩
    · split_ifs <;> rfl
    · split_ifs <;> exact ⟨_, rfl⟩

theorem ctaphidCustomCommand_ok (hbusy : d.isBusy = false)
    (h : ctaphidCustomCommand version P env d cid cmd len = .ok (done, d')) : Serves d d' := by
  unfold ctaphidCustomCommand at h
  split_ifs at h
  · obtain ⟨rfl, rfl⟩ := Prod.mk.inj (Except.ok.inj h)
    exact serves_of_layer rfl rfl hbusy
  · obtain ⟨⟨file, d₁⟩, hrun, h⟩ := except_bind_eq_ok.mp h
    obtain ⟨w, -, rfl⟩ := Device.run_eq_ok hrun
    obtain ⟨rfl, rfl⟩ := Prod.mk.inj (Except.ok.inj h)
    exact serves_of_layer rfl rfl hbusy
  · obtain ⟨rfl, rfl⟩ := Prod.mk.inj (Except.ok.inj h)
    exact serves_of_layer rfl rfl hbusy
  · obtain ⟨⟨written, d₁⟩, hrun, h⟩ := except_bind_eq_ok.mp h
    obtain ⟨w, -, rfl⟩ := Device.run_eq_ok hrun
    obtain ⟨rfl, rfl⟩ := Prod.mk.inj (Except.ok.inj h)
    exact serves_of_layer rfl rfl hbusy
  · obtain ⟨⟨rng, d₁⟩, hrun, h⟩ := except_bind_eq_ok.mp h
    obtain ⟨w, -, rfl⟩ := Device.run_eq_ok hrun
    obtain ⟨rfl, rfl⟩ := Prod.mk.inj (Except.ok.inj h)
    exact ⟨rfl, ⟨_, rfl⟩, hbusy⟩
  · obtain ⟨rfl, rfl⟩ := Prod.mk.inj (Except.ok.inj h)
    exact ⟨rfl, ⟨_, rfl⟩, hbusy⟩
  · obtain ⟨rfl, rfl⟩ := Prod.mk.inj (Except.ok.inj h)
    exact serves_of_layer rfl rfl hbusy

/-- The commands that answer an empty message without leaving through the end of the function. -/
def returnsEarly (cmd : UInt8) (len : UInt16) : Prop := (cmd = ctaphidCbor ∨ cmd = ctaphidMsg) ∧ len = 0

theorem handleCommand_ok (hbusy : d.isBusy = false)
    (h : handleCommand version P env d cid cmd len = .ok (done, d')) :
    Serves d d' ∧ (done = false ↔ returnsEarly cmd len) := by
  unfold handleCommand at h
  split_ifs at h with h₁ h₂ h₃ h₄ h₅ h₆
  · obtain ⟨rfl, rfl⟩ := Prod.mk.inj (Except.ok.inj h)
    refine ⟨serves_of_layer rfl rfl hbusy, ?_⟩
    simp [returnsEarly, h₂, ctaphidPing, ctaphidCbor, ctaphidMsg]
  · obtain ⟨rfl, rfl⟩ := Prod.mk.inj (Except.ok.inj h)
    refine ⟨serves_of_layer rfl rfl hbusy, ?_⟩
    simp [returnsEarly, h₃, ctaphidWink, ctaphidCbor, ctaphidMsg]
  · obtain ⟨hs, hd⟩ := handleCbor_ok hbusy h
    exact ⟨hs, by simp [returnsEarly, h₄, hd]⟩
  · obtain ⟨hs, hd⟩ := handleMsg_ok hbusy h
    exact ⟨hs, by simp [returnsEarly, h₅, hd]⟩
  · obtain ⟨rfl, rfl⟩ := Prod.mk.inj (Except.ok.inj h)
    refine ⟨serves_of_layer rfl rfl rfl, ?_⟩
    simp [returnsEarly, h₆, ctaphidCancel, ctaphidCbor, ctaphidMsg]
  · obtain ⟨⟨b, d₁⟩, hc, h⟩ := except_bind_eq_ok.mp h
    have hs := ctaphidCustomCommand_ok hbusy hc
    have hnot : ¬ returnsEarly cmd len := fun hr => hr.1.elim h₄ h₅
    cases b with
    | true =>
      obtain ⟨rfl, rfl⟩ := Prod.mk.inj (Except.ok.inj h)
      exact ⟨⟨hs.cids, hs.buffer, rfl⟩, by simp [hnot]⟩
    | false =>
      obtain ⟨rfl, rfl⟩ := Prod.mk.inj (Except.ok.inj h)
      exact ⟨hs.sent _, by simp [hnot]⟩

end Dispatcher

/-! ## One packet of the device -/

/-- `buffer_packet` took the packet and left the buffer `b`; `cids` is the table with the channel
refreshed. -/
inductive Takes (l : Layer) (pkt : Packet) (b : Buffer) : List Cid → Prop
  | first {now : UInt64} (hinit : pkt.isInitPkt = false) (hcont : pkt.isContPkt = false)
      (hcid : pkt.cid ≠ ctaphidBroadcastCid) (hst : l.buffer.status ≠ .buffering)
      (hlen : pkt.len.toNat ≤ ctaphidBufferSize)
      (hexists : cidExists (enterChannel l pkt).cids pkt.cid = true)
      (hb : l.buffer.packet pkt = (false, b)) :
      Takes l pkt b (refreshed pkt.cid now (enterChannel l pkt).cids)
  | next {now : UInt64} (hcont : pkt.isContPkt = true) (hcid : pkt.cid ≠ ctaphidBroadcastCid)
      (hst : l.buffer.status ≠ .empty) (hown : pkt.cid = l.buffer.cid)
      (hexists : cidExists l.cids pkt.cid = true) (hb : l.buffer.packet pkt = (false, b)) :
      Takes l pkt b (refreshed pkt.cid now l.cids)

/-- What a packet does to the channel table and the buffer. -/
inductive Moves (version : Version) (l : Layer) (pkt : Packet) : List Cid → Buffer → Prop
  | ignored : Moves version l pkt l.cids l.buffer
  | refused (href : pkt.isInitPkt = true → pkt.RefusedInit)
      (hother : pkt.isInitPkt = false → l.buffer.status = .buffering →
        pkt.cid ≠ l.buffer.cid ∨ pkt.cid = ctaphidBroadcastCid ∨ cidExists l.cids pkt.cid = false) :
      Moves version l pkt (released pkt.cid l.cids) l.buffer
  | tooLong (hst : l.buffer.status ≠ .buffering)
      (hexists : cidExists (enterChannel l pkt).cids pkt.cid = true) :
      Moves version l pkt (released pkt.cid (enterChannel l pkt).cids) l.buffer
  | init {r : Received} {l' : Layer} (hinit : pkt.isInitPkt = true) (hacc : ¬ pkt.RefusedInit)
      (h : bufferInitPacket version l pkt = (r, l')) :
      Moves version l pkt (if r.status = .hidError then released pkt.cid l'.cids else l'.cids)
        l.buffer.reset
  | aborted (hinit : pkt.isInitPkt = false) (hown : pkt.cid = l.buffer.cid) :
      Moves version l pkt (released pkt.cid l.cids) l.buffer.reset
  | buffering {b : Buffer} {cids : List Cid} (h : Takes l pkt b cids) (hst : b.status = .buffering) :
      Moves version l pkt cids b
  | served {b : Buffer} {cids : List Cid} {data : Bytes 1344} (h : Takes l pkt b cids)
      (hst : b.status ≠ .buffering) (hend : ¬ returnsEarly b.cmd b.bcnt) :
      Moves version l pkt (released pkt.cid cids) { b with data := data }.reset
  | left {b : Buffer} {cids : List Cid} {data : Bytes 1344} (h : Takes l pkt b cids)
      (hearly : returnsEarly b.cmd b.bcnt) : Moves version l pkt cids { b with data := data }

section Packets

variable {version : Version} {P : Platform} {env : Env} {d d' : Device} {pkt : Packet}

theorem replyInit_buffer (newcid : UInt32) (r : Bool × Layer) :
    (replyInit version pkt newcid r).2.buffer = r.2.buffer := by
  unfold replyInit
  split_ifs
  · exact cidDel_buffer _ _
  · rfl

/-- An accepted `CTAPHID_INIT` empties the buffer, whoever owns the message in it. -/
theorem bufferInitPacket_buffer (version : Version) (l : Layer) (hacc : ¬ pkt.RefusedInit) :
    (bufferInitPacket version l pkt).2.buffer = l.buffer.reset := by
  obtain ⟨hlen, hcid⟩ := not_or.mp hacc
  unfold bufferInitPacket
  rw [if_neg hlen, if_neg hcid]
  by_cases hb : pkt.isBroadcast = true
  · simp only [hb, if_true]
    rw [replyInit_buffer, addCid_buffer]
  · simp only [hb, Bool.false_eq_true, if_false]
    rw [replyInit_buffer]
    split_ifs
    · rw [cidRefresh_buffer]
    · rw [addCid_buffer]

/-- What the caller sees of a `CTAPHID_INIT` packet. -/
theorem bufferInitPacket_received (version : Version) (l : Layer) (pkt : Packet) :
    (bufferInitPacket version l pkt).1.cid = pkt.cid ∧
      (bufferInitPacket version l pkt).1.cmd ≠ ctap1ErrInvalidSeq ∧
      ((bufferInitPacket version l pkt).1.status = .hidError ∨
        (bufferInitPacket version l pkt).1.status = .hidIgnore) := by
  have h0 : (0 : UInt8) ≠ ctap1ErrInvalidSeq := by decide
  have hbusy : ctap1ErrChannelBusy ≠ ctap1ErrInvalidSeq := by decide
  have hlen : ctap1ErrInvalidLength ≠ ctap1ErrInvalidSeq := by decide
  have hcid : ctap1ErrInvalidChannel ≠ ctap1ErrInvalidSeq := by decide
  have hreply : ∀ newcid r, (replyInit version pkt newcid r).1.cid = pkt.cid ∧
      (replyInit version pkt newcid r).1.cmd ≠ ctap1ErrInvalidSeq := by
    intro newcid r
    unfold replyInit
    split_ifs
    · exact ⟨rfl, h0⟩
    · exact ⟨rfl, hbusy⟩
  refine ⟨?_, ?_, bufferInitPacket_status version l pkt⟩
  · unfold bufferInitPacket
    split_ifs
    all_goals first | rfl | exact (hreply _ _).1
  · unfold bufferInitPacket
    split_ifs
    all_goals first | exact hlen | exact hcid | exact (hreply _ _).2

/-- A packet out of sequence changes the counter only. -/
theorem packet_outOfSequence {b b' : Buffer} (h : b.packet pkt = (true, b')) : b'.reset = b.reset := by
  by_cases hcont : pkt.isContPkt = true
  · rw [packet_of_cont b hcont] at h
    split_ifs at h
    · obtain ⟨-, rfl⟩ := Prod.mk.inj h
      rfl
    · obtain ⟨-, rfl⟩ := Prod.mk.inj h
      rfl
    · simp at h
  · rw [packet_of_init b (by simpa using hcont)] at h
    simp at h

section Handle

variable {r : Received} {l : Layer}

theorem handlePacket_ignored (h : ctaphidBufferPacket version d.layer pkt = some (r, l))
    (hst : r.status = .hidIgnore) :
    ctaphidHandlePacket version P env d pkt = .ok { d with layer := l } := by
  unfold ctaphidHandlePacket
  rw [h]
  simp only [hst]
  rfl

theorem handlePacket_error (h : ctaphidBufferPacket version d.layer pkt = some (r, l))
    (hst : r.status = .hidError) :
    ctaphidHandlePacket version P env d pkt = .ok (handleError { d with layer := l } r.cid r.cmd) := by
  unfold ctaphidHandlePacket
  rw [h]
  simp only [hst]
  rfl

theorem handlePacket_buffering (h : ctaphidBufferPacket version d.layer pkt = some (r, l))
    (hst : r.status = .buffering) :
    ctaphidHandlePacket version P env d pkt = .ok { d with layer := l.millis.2 } := by
  unfold ctaphidHandlePacket
  rw [h]
  simp only [hst]
  rfl

theorem handlePacket_complete (h : ctaphidBufferPacket version d.layer pkt = some (r, l))
    (hst : r.status = .empty ∨ r.status = .buffered) :
    ctaphidHandlePacket version P env d pkt
      = handleCommand version P env { d with layer := l } r.cid r.cmd r.len >>= fun x =>
        pure (if x.1 then x.2.release r.cid else x.2) := by
  unfold ctaphidHandlePacket
  rw [h]
  rcases hst with hst | hst
  · simp only [hst]
  · simp only [hst]

end Handle

theorem Buffer.status_cases (b : Buffer) :
    b.status = .buffering ∨ b.status = .empty ∨ b.status = .buffered := by
  unfold Buffer.status
  split_ifs <;> simp

/-- Where a message is complete, the dispatcher runs and the end of the function releases the
channel, unless the command returned early. -/
theorem moves_of_took {l : Layer} (hbusy : d.isBusy = false)
    (htakes : Takes d.layer pkt l.buffer l.cids)
    (hpkt : ctaphidBufferPacket version d.layer pkt
      = some (⟨l.buffer.status, pkt.cid, l.buffer.cmd, l.buffer.bcnt⟩, l))
    (h : ctaphidHandlePacket version P env d pkt = .ok d') :
    d'.isBusy = false ∧ Moves version d.layer pkt d'.layer.cids d'.layer.buffer := by
  rcases l.buffer.status_cases with hst | hst
  · rw [handlePacket_buffering hpkt hst] at h
    obtain rfl := Except.ok.inj h
    exact ⟨hbusy, .buffering htakes hst⟩
  · have hne : l.buffer.status ≠ .buffering := by
      rcases hst with hst | hst <;> simp [hst]
    rw [handlePacket_complete hpkt hst] at h
    obtain ⟨⟨done, d₁⟩, hc, h⟩ := except_bind_eq_ok.mp h
    obtain rfl := except_pure_eq_ok.mp h
    obtain ⟨hs, hdone⟩ := handleCommand_ok (d := { d with layer := l }) hbusy hc
    obtain ⟨data, hdata⟩ := hs.buffer
    by_cases hearly : returnsEarly l.buffer.cmd l.buffer.bcnt
    · obtain rfl := hdone.mpr hearly
      refine ⟨hs.isBusy, ?_⟩
      show Moves version d.layer pkt d₁.layer.cids d₁.layer.buffer
      rw [hs.cids, hdata]
      exact .left htakes hearly
    · obtain rfl : done = true := by
        by_contra hd
        exact hearly (hdone.mp (by simpa using hd))
      refine ⟨hs.isBusy, ?_⟩
      show Moves version d.layer pkt (d₁.layer.cidDel pkt.cid).cids (d₁.layer.cidDel pkt.cid).buffer.reset
      rw [cidDel_cids, cidDel_buffer, hs.cids, hdata]
      exact .served htakes hne hearly

/-- The error exit: the channel is released, and a message out of sequence is dropped. -/
theorem handleError_layer (d : Device) (cid : UInt32) (e : UInt8) :
    (handleError d cid e).layer.cids = released cid d.layer.cids ∧
      (handleError d cid e).layer.buffer
        = if e = ctap1ErrInvalidSeq then d.layer.buffer.reset else d.layer.buffer := by
  unfold handleError
  split_ifs
  · exact ⟨cidDel_cids, congrArg Buffer.reset (cidDel_buffer d.layer cid)⟩
  · exact ⟨cidDel_cids, cidDel_buffer d.layer cid⟩

/-- The cases of `ctaphid_handle_packet`. -/
theorem moves_of_handle (hbusy : d.isBusy = false)
    (h : ctaphidHandlePacket version P env d pkt = .ok d') :
    d'.isBusy = false ∧ Moves version d.layer pkt d'.layer.cids d'.layer.buffer := by
  cases hpkt : ctaphidBufferPacket version d.layer pkt with
  | none => exact absurd hpkt (ctaphidBufferPacket_ne_none _ _ _)
  | some x =>
    obtain ⟨r, l⟩ := x
    cases bufferStep_of_eq hpkt with
    | @initRefused e hinit href he =>
      rw [handlePacket_error hpkt rfl] at h
      obtain rfl := Except.ok.inj h
      obtain ⟨hcids, hbuf⟩ := handleError_layer d pkt.cid e
      rw [if_neg he] at hbuf
      exact ⟨hbusy, hcids ▸ hbuf ▸ .refused (fun _ => href) fun hf => by simp [hinit] at hf⟩
    | init hinit hacc hr =>
      have hbuf := bufferInitPacket_buffer version d.layer hacc
      rw [hr] at hbuf
      obtain ⟨hcid, hcmd, hst⟩ := bufferInitPacket_received version d.layer pkt
      rw [hr] at hcid hcmd hst
      have hmoves := Moves.init hinit hacc hr
      rcases hst with hst | hst
      · rw [handlePacket_error hpkt hst] at h
        obtain rfl := Except.ok.inj h
        obtain ⟨hcids, hbuf'⟩ := handleError_layer { d with layer := l } r.cid r.cmd
        rw [if_neg hcmd, hbuf] at hbuf'
        rw [if_pos hst, ← hcid] at hmoves
        exact ⟨hbusy, hcids ▸ hbuf' ▸ hmoves⟩
      · rw [handlePacket_ignored hpkt hst] at h
        obtain rfl := Except.ok.inj h
        rw [if_neg (by rw [hst]; decide)] at hmoves
        exact ⟨hbusy, hbuf ▸ hmoves⟩
    | @refused e hinit he hother =>
      rw [handlePacket_error hpkt rfl] at h
      obtain rfl := Except.ok.inj h
      obtain ⟨hcids, hbuf⟩ := handleError_layer d pkt.cid e
      rw [if_neg he] at hbuf
      exact ⟨hbusy, hcids ▸ hbuf ▸ .refused (fun hf => by simp [hinit] at hf) fun _ => hother⟩
    | restarted hinit hst hown =>
      rw [handlePacket_error hpkt rfl] at h
      obtain rfl := Except.ok.inj h
      obtain ⟨hcids, hbuf⟩ := handleError_layer d pkt.cid ctap1ErrInvalidSeq
      rw [if_pos rfl] at hbuf
      exact ⟨hbusy, hcids ▸ hbuf ▸ .aborted hinit hown⟩
    | ignored hinit =>
      rw [handlePacket_ignored hpkt rfl] at h
      obtain rfl := Except.ok.inj h
      exact ⟨hbusy, .ignored⟩
    | tooLong hinit hst hexists =>
      rw [handlePacket_error hpkt rfl] at h
      obtain rfl := Except.ok.inj h
      obtain ⟨hcids, hbuf⟩ :=
        handleError_layer { d with layer := enterChannel d.layer pkt } pkt.cid ctap1ErrInvalidLength
      rw [if_neg (by decide), enterChannel_buffer] at hbuf
      exact ⟨hbusy, hcids ▸ hbuf ▸ .tooLong hst hexists⟩
    | @first b hinit hcont hcid hst hlen hexists hb =>
      refine moves_of_took (l := (enterChannel d.layer pkt).took b pkt.cid) hbusy ?_ ?_ h
      · obtain ⟨now, hnow⟩ := took_cids (enterChannel d.layer pkt) b pkt.cid
        rw [took_buffer, hnow]
        exact .first hinit hcont hcid hst hlen hexists hb
      · rw [hpkt, took_buffer]
    | @next b hinit hcont hcid hst hown hexists hb =>
      refine moves_of_took (l := d.layer.took b pkt.cid) hbusy ?_ ?_ h
      · obtain ⟨now, hnow⟩ := took_cids d.layer b pkt.cid
        rw [took_buffer, hnow]
        exact .next hcont hcid hst hown hexists hb
      · rw [hpkt, took_buffer]
    | @outOfSequence b hinit hown hb =>
      rw [handlePacket_error hpkt rfl] at h
      obtain rfl := Except.ok.inj h
      obtain ⟨hcids, hbuf⟩ :=
        handleError_layer { d with layer := { d.layer with buffer := b } } pkt.cid ctap1ErrInvalidSeq
      rw [if_pos rfl, packet_outOfSequence hb] at hbuf
      exact ⟨hbusy, hcids ▸ hbuf ▸ .aborted hinit hown⟩

end Packets

end TkeyFido2.Hid
