import TkeyFido2.Hid.Reserved
import TkeyFido2.Hid.Replies

/-!
# The allocated channels

`get_new_cid` counts upwards and does not look at the table, which a host can fill with channels of its
own choice.  As long as hosts use the channels that were allocated to them, every new channel is free
and no two busy entries share a channel.
-/

namespace TkeyFido2.Hid

open Cbor Prog

/-! ## The counter -/

/-- The packet makes `ctaphid_buffer_packet` allocate a channel. -/
def Packet.allocates (pkt : Packet) : Bool := pkt.isInitPkt && pkt.isBroadcast && pkt.len == 8

/-- The runs whose packets satisfy a condition, with the channels that `get_new_cid` gave so far, newest
first.  Those given out in a reply are among them. -/
inductive Allocated (version : Version) (P : Platform) (ok : List UInt32 → Device → Packet → Prop) :
    List UInt32 → Device → Prop
  | start {d : Device} (h : d.IsStarted P) : Allocated version P ok [] d
  | packet {a : List UInt32} {d d' : Device} (h : Allocated version P ok a d) (env : Env) (pkt : Packet)
      (hok : ok a d pkt) (hp : ctaphidHandlePacket version P env d pkt = .ok d') :
      Allocated version P ok (if pkt.allocates then getNewCid d.layer.lastCid :: a else a) d'
  | timeouts {a : List UInt32} {d : Device} (h : Allocated version P ok a d) :
      Allocated version P ok a { d with layer := ctaphidCheckTimeouts d.layer }

theorem Allocated.reached {version : Version} {P : Platform} {ok : List UInt32 → Device → Packet → Prop}
    {a : List UInt32} {d : Device} (h : Allocated version P ok a d) : Reached version P d := by
  induction h with
  | start h => exact .start h
  | packet h env pkt hok hp ih => exact .packet ih env pkt hp
  | timeouts h ih => exact .timeouts ih

section Counter

variable {last : UInt32} {a : List UInt32}

theorem getNewCid_toNat (h : last.toNat < 2 ^ 32 - 2) : (getNewCid last).toNat = last.toNat + 1 := by
  have hsum : (last + 1).toNat = last.toNat + 1 := by
    rw [UInt32.toNat_add]
    have hone : (1 : UInt32).toNat = 1 := rfl
    omega
  have hzero : last + 1 ≠ 0 := by
    intro h0
    rw [h0] at hsum
    have : (0 : UInt32).toNat = 0 := rfl
    omega
  have hmax : last + 1 ≠ 0xffffffff := by
    intro hmax
    rw [hmax] at hsum
    have : (0xffffffff : UInt32).toNat = 2 ^ 32 - 1 := rfl
    omega
  unfold getNewCid
  rw [if_neg (not_or.mpr ⟨hzero, hmax⟩), hsum]

/-- After the greatest channel the counter skips the two reserved values. -/
theorem getNewCid_wraps (h : last.toNat = 2 ^ 32 - 2) : getNewCid last = 1 := by
  obtain rfl : last = 0xfffffffe := UInt32.toNat_inj.mp h
  rfl

/-- The counter and the channels it gave. -/
structure Counted (a : List UInt32) (last : UInt32) : Prop where
  count : last.toNat = a.length + 1
  given : ∀ c ∈ a, 2 ≤ c.toNat ∧ c.toNat ≤ last.toNat

theorem Counted.next (h : Counted a last) (hn : a.length + 1 < 2 ^ 32 - 2) :
    Counted (getNewCid last :: a) (getNewCid last) := by
  have hlast := h.count
  have hnext : (getNewCid last).toNat = last.toNat + 1 := getNewCid_toNat (by omega)
  refine ⟨?_, ?_⟩
  · rw [hnext, hlast, List.length_cons]
  · intro c hc
    rcases List.mem_cons.mp hc with rfl | hc
    · omega
    · have hgiven := h.given c hc
      omega

/-- The next channel is no reserved one and was not given before. -/
theorem Counted.fresh (h : Counted a last) (hn : a.length < 2 ^ 32 - 2) :
    getNewCid last ≠ 0 ∧ getNewCid last ≠ 0xffffffff ∧ getNewCid last ∉ a := by
  have hlast := h.count
  by_cases hmax : last.toNat = 2 ^ 32 - 2
  · rw [getNewCid_wraps hmax]
    refine ⟨by decide, by decide, fun hmem => ?_⟩
    have hone := (h.given 1 hmem).1
    revert hone
    decide
  · have hnext : (getNewCid last).toNat = last.toNat + 1 := getNewCid_toNat (by omega)
    refine ⟨?_, ?_, ?_⟩
    · intro h0
      rw [h0] at hnext
      have : (0 : UInt32).toNat = 0 := rfl
      omega
    · intro h1
      rw [h1] at hnext
      have : (0xffffffff : UInt32).toNat = 2 ^ 32 - 1 := rfl
      omega
    · intro hmem
      have hgiven := (h.given _ hmem).2
      omega

end Counter

/-! ## Where the counter moves -/

section LastCid

variable {version : Version} {P : Platform} {env : Env} {d d' : Device} {cid : UInt32} {cmd : UInt8}
  {len : UInt16} {done : Bool} {l : Layer} {pkt : Packet}

theorem addCid_lastCid (l : Layer) (cid : UInt32) : (l.addCid cid).2.lastCid = l.lastCid := by
  unfold Layer.addCid
  split <;> rfl

theorem cidRefresh_lastCid (l : Layer) (cid : UInt32) : (l.cidRefresh cid).2.lastCid = l.lastCid := by
  unfold Layer.cidRefresh
  split <;> rfl

theorem cidDel_lastCid (l : Layer) (cid : UInt32) : (l.cidDel cid).lastCid = l.lastCid := by
  unfold Layer.cidDel
  split <;> rfl

theorem enterChannel_lastCid (l : Layer) (pkt : Packet) : (enterChannel l pkt).lastCid = l.lastCid := by
  unfold enterChannel
  split_ifs
  · exact addCid_lastCid l pkt.cid
  · rfl

theorem replyInit_lastCid (newcid : UInt32) (r : Bool × Layer) :
    (replyInit version pkt newcid r).2.lastCid = r.2.lastCid := by
  unfold replyInit
  split_ifs
  · exact cidDel_lastCid _ _
  · rfl

theorem bufferInitPacket_lastCid (version : Version) (l : Layer) (pkt : Packet) :
    (bufferInitPacket version l pkt).2.lastCid
      = if pkt.isBroadcast && pkt.len == 8 then getNewCid l.lastCid else l.lastCid := by
  unfold bufferInitPacket
  by_cases hlen : pkt.len = 8
  · by_cases hb : pkt.isBroadcast = true
    · have hcid : pkt.cid ≠ 0 := by
        intro hcid
        have hall : pkt.cid = ctaphidBroadcastCid := by simpa [Packet.isBroadcast] using hb
        rw [hcid] at hall
        exact absurd hall (by decide)
      rw [if_neg (by simpa using hlen), if_neg hcid]
      simp only [hb, hlen, if_true, beq_self_eq_true, Bool.and_self]
      rw [replyInit_lastCid, addCid_lastCid]
    · rw [if_neg (by simpa using hlen)]
      simp only [hb, Bool.false_and, Bool.false_eq_true, if_false]
      split_ifs
      · rfl
      · rw [replyInit_lastCid, cidRefresh_lastCid]
      · rw [replyInit_lastCid, addCid_lastCid]
  · rw [if_pos hlen]
    simp [hlen]

theorem handleCbor_lastCid (h : handleCbor P env d cid cmd len = .ok (done, d')) :
    d'.layer.lastCid = d.layer.lastCid := by
  unfold handleCbor at h
  split at h
  · obtain ⟨rfl, rfl⟩ := Prod.mk.inj (Except.ok.inj h)
    rfl
  · obtain ⟨⟨⟨status, data⟩, d₁⟩, hrun, h⟩ := except_bind_eq_ok.mp h
    obtain ⟨w, -, rfl⟩ := Device.run_eq_ok hrun
    simp only at h
    split_ifs at h
    all_goals
      obtain ⟨rfl, rfl⟩ := Prod.mk.inj (Except.ok.inj h)
      rfl

theorem handleMsg_lastCid (h : handleMsg P env d cid cmd len = .ok (done, d')) :
    d'.layer.lastCid = d.layer.lastCid := by
  unfold handleMsg at h
  split at h
  · obtain ⟨rfl, rfl⟩ := Prod.mk.inj (Except.ok.inj h)
    rfl
  · obtain ⟨⟨⟨data, buf⟩, d₁⟩, hrun, h⟩ := except_bind_eq_ok.mp h
    obtain ⟨w, -, rfl⟩ := Device.run_eq_ok hrun
    simp only at h
    split_ifs at h
    all_goals
      obtain ⟨rfl, rfl⟩ := Prod.mk.inj (Except.ok.inj h)
      rfl

theorem ctaphidCustomCommand_lastCid (h : ctaphidCustomCommand version P env d cid cmd len = .ok (done, d')) :
    d'.layer.lastCid = d.layer.lastCid := by
  unfold ctaphidCustomCommand at h
  split_ifs at h
  · obtain ⟨rfl, rfl⟩ := Prod.mk.inj (Except.ok.inj h)
    rfl
  · obtain ⟨⟨file, d₁⟩, hrun, h⟩ := except_bind_eq_ok.mp h
    obtain ⟨w, -, rfl⟩ := Device.run_eq_ok hrun
    obtain ⟨rfl, rfl⟩ := Prod.mk.inj (Except.ok.inj h)
    rfl
  · obtain ⟨rfl, rfl⟩ := Prod.mk.inj (Except.ok.inj h)
    rfl
  · obtain ⟨⟨written, d₁⟩, hrun, h⟩ := except_bind_eq_ok.mp h
    obtain ⟨w, -, rfl⟩ := Device.run_eq_ok hrun
    obtain ⟨rfl, rfl⟩ := Prod.mk.inj (Except.ok.inj h)
    rfl
  · obtain ⟨⟨rng, d₁⟩, hrun, h⟩ := except_bind_eq_ok.mp h
    obtain ⟨w, -, rfl⟩ := Device.run_eq_ok hrun
    obtain ⟨rfl, rfl⟩ := Prod.mk.inj (Except.ok.inj h)
    rfl
  · obtain ⟨rfl, rfl⟩ := Prod.mk.inj (Except.ok.inj h)
    rfl
  · obtain ⟨rfl, rfl⟩ := Prod.mk.inj (Except.ok.inj h)
    rfl

theorem handleCommand_lastCid (h : handleCommand version P env d cid cmd len = .ok (done, d')) :
    d'.layer.lastCid = d.layer.lastCid := by
  unfold handleCommand at h
  split_ifs at h
  · obtain ⟨rfl, rfl⟩ := Prod.mk.inj (Except.ok.inj h)
    rfl
  · obtain ⟨rfl, rfl⟩ := Prod.mk.inj (Except.ok.inj h)
    rfl
  · exact handleCbor_lastCid h
  · exact handleMsg_lastCid h
  · obtain ⟨rfl, rfl⟩ := Prod.mk.inj (Except.ok.inj h)
    rfl
  · obtain ⟨⟨b, d₁⟩, hc, h⟩ := except_bind_eq_ok.mp h
    have hs := ctaphidCustomCommand_lastCid hc
    cases b with
    | true =>
      obtain ⟨rfl, rfl⟩ := Prod.mk.inj (Except.ok.inj h)
      exact hs
    | false =>
      obtain ⟨rfl, rfl⟩ := Prod.mk.inj (Except.ok.inj h)
      exact hs

/-- Only an allocation moves the counter in `ctaphid_buffer_packet`. -/
theorem ctaphidBufferPacket_lastCid {r : Received} (h : ctaphidBufferPacket version d.layer pkt = some (r, l)) :
    l.lastCid = if pkt.allocates then getNewCid d.layer.lastCid else d.layer.lastCid := by
  by_cases hinit : pkt.isInitPkt = true
  · have hr : bufferInitPacket version d.layer pkt = (r, l) := by
      simpa [ctaphidBufferPacket, hinit] using h
    have hlast := bufferInitPacket_lastCid version d.layer pkt
    rw [hr] at hlast
    simpa [Packet.allocates, hinit] using hlast
  · have hnot : pkt.allocates = false := by simp [Packet.allocates, hinit]
    rw [hnot]
    cases bufferStep_of_eq h with
    | initRefused => rfl
    | init hinit' => exact absurd hinit' hinit
    | refused => rfl
    | restarted => rfl
    | ignored => rfl
    | tooLong => exact enterChannel_lastCid d.layer pkt
    | first => exact (cidRefresh_lastCid _ _).trans (enterChannel_lastCid d.layer pkt)
    | next => exact cidRefresh_lastCid _ _
    | outOfSequence => rfl

theorem handlePacket_lastCid (h : ctaphidHandlePacket version P env d pkt = .ok d') :
    d'.layer.lastCid = if pkt.allocates then getNewCid d.layer.lastCid else d.layer.lastCid := by
  cases hpkt : ctaphidBufferPacket version d.layer pkt with
  | none => exact absurd hpkt (ctaphidBufferPacket_ne_none _ _ _)
  | some x =>
    obtain ⟨r, l⟩ := x
    rw [← ctaphidBufferPacket_lastCid hpkt]
    cases hst : r.status with
    | hidIgnore =>
      rw [handlePacket_ignored hpkt hst] at h
      obtain rfl := Except.ok.inj h
      rfl
    | hidError =>
      rw [handlePacket_error hpkt hst] at h
      obtain rfl := Except.ok.inj h
      unfold handleError
      split_ifs
      · exact cidDel_lastCid l r.cid
      · exact cidDel_lastCid l r.cid
    | buffering =>
      rw [handlePacket_buffering hpkt hst] at h
      obtain rfl := Except.ok.inj h
      rfl
    | _ =>
      rw [handlePacket_complete hpkt (by simp [hst])] at h
      obtain ⟨⟨done, d₁⟩, hc, h⟩ := except_bind_eq_ok.mp h
      obtain rfl := except_pure_eq_ok.mp h
      have hd₁ : d₁.layer.lastCid = l.lastCid := handleCommand_lastCid hc
      cases done with
      | true => exact (cidDel_lastCid d₁.layer r.cid).trans hd₁
      | false => exact hd₁

theorem checkTimeoutsLoop_lastCid (cs : List Cid) (l : Layer) :
    (checkTimeoutsLoop cs l).2.lastCid = l.lastCid := by
  induction cs generalizing l with
  | nil => rfl
  | cons c cs ih =>
    refine (ih (checkTimeout c l).2).trans ?_
    unfold checkTimeout
    split_ifs
    · simp only
      split_ifs <;> rfl
    · rfl

variable {ok : List UInt32 → Device → Packet → Prop} {a : List UInt32}

theorem Allocated.counted (h : Allocated version P ok a d) (hn : a.length < 2 ^ 32 - 2) :
    Counted a d.layer.lastCid := by
  induction h with
  | @start d h =>
    rw [h.2.1]
    exact ⟨rfl, by simp⟩
  | @packet a d d' h env pkt hok hp ih =>
    rw [handlePacket_lastCid hp]
    by_cases halloc : pkt.allocates = true
    · rw [if_pos halloc] at hn ⊢
      rw [if_pos halloc]
      rw [List.length_cons] at hn
      exact (ih (by omega)).next hn
    · rw [if_neg halloc] at hn ⊢
      rw [if_neg halloc]
      exact ih hn
  | @timeouts a d h ih =>
    have hlast : (ctaphidCheckTimeouts d.layer).lastCid = d.layer.lastCid :=
      checkTimeoutsLoop_lastCid d.layer.cids d.layer
    rw [hlast]
    exact ih hn

end LastCid

/-! ## The table -/

/-- The packet is about to enter its channel in the table: a `CTAPHID_INIT` or the first packet of a
message, on a channel that the table does not hold. -/
def Enters (l : Layer) (pkt : Packet) : Prop :=
  pkt.cid ≠ ctaphidBroadcastCid ∧ cidExists l.cids pkt.cid = false ∧
    if pkt.isInitPkt = true then pkt.len = 8 else pkt.isContPkt = false ∧ l.buffer.status = .empty

/-- A channel that enters the table was allocated before, or is channel 0. -/
def UsesAllocated (a : List UInt32) (d : Device) (pkt : Packet) : Prop :=
  Enters d.layer pkt → pkt.cid = 0 ∨ pkt.cid ∈ a

/-- A table of allocated channels, in which the later entries of a channel are free. -/
structure TableOf (a : List UInt32) (cids : List Cid) : Prop where
  known : ∀ e ∈ cids, e.cid = 0 ∨ e.cid ∈ a
  later : cids.Pairwise fun e e' => e.cid = e'.cid → e'.busy = false

section Table

variable {a : List UInt32} {cids cids' : List Cid} {pre post : List Cid} {e e' : Cid} {cid : UInt32}
  {now : UInt64} {l : Layer}

theorem TableOf.mono (h : TableOf a cids) (c : UInt32) : TableOf (c :: a) cids :=
  ⟨fun e he => (h.known e he).imp id (List.mem_cons_of_mem c), h.later⟩

/-- Replacing an entry. -/
theorem TableOf.replace (h : TableOf a (pre ++ e :: post)) (hknown : e'.cid = 0 ∨ e'.cid ∈ a)
    (hpre : ∀ x ∈ pre, x.cid = e'.cid → e'.busy = false)
    (hpost : ∀ y ∈ post, e'.cid = y.cid → y.busy = false) : TableOf a (pre ++ e' :: post) := by
  obtain ⟨hk, hl⟩ := h
  obtain ⟨hlpre, hlpost, hcross⟩ := List.pairwise_append.mp hl
  refine ⟨?_, List.pairwise_append.mpr ⟨hlpre, List.pairwise_cons.mpr ⟨hpost, ?_⟩, ?_⟩⟩
  · intro x hx
    rcases List.mem_append.mp hx with hx | hx
    · exact hk x (List.mem_append_left _ hx)
    · rcases List.mem_cons.mp hx with rfl | hx
      · exact hknown
      · exact hk x (List.mem_append_right _ (List.mem_cons_of_mem _ hx))
  · exact (List.pairwise_cons.mp hlpost).2
  · intro x hx y hy
    rcases List.mem_cons.mp hy with rfl | hy
    · exact hpre x hx
    · exact hcross x hx y (List.mem_cons_of_mem _ hy)

theorem TableOf.released (h : TableOf a cids) (cid : UInt32) : TableOf a (released cid cids) := by
  unfold Hid.released
  cases hup : updateFirst (·.cid == cid) (fun e => { e with busy := false }) cids with
  | none => exact h
  | some cids' =>
    obtain ⟨pre, e, post, rfl, -, -, rfl⟩ := updateFirst_eq_some hup
    refine h.replace (h.known e (by simp)) (fun _ _ _ => rfl) ?_
    exact (List.pairwise_cons.mp (List.pairwise_append.mp h.later).2.1).1

theorem TableOf.refreshed (h : TableOf a cids) (cid : UInt32) (now : UInt64) :
    TableOf a (refreshed cid now cids) := by
  unfold Hid.refreshed
  cases hup : updateFirst (·.cid == cid) (fun e => { e with lastUsed := now, busy := true }) cids with
  | none => exact h
  | some cids' =>
    obtain ⟨pre, e, post, rfl, hpre, he, rfl⟩ := updateFirst_eq_some hup
    refine h.replace (h.known e (by simp)) ?_ ?_
    · intro x hx hcid
      have hx' : x.cid ≠ cid := by simpa using hpre x hx
      have he' : e.cid = cid := by simpa using he
      exact absurd (hcid.trans he') hx'
    · exact (List.pairwise_cons.mp (List.pairwise_append.mp h.later).2.1).1

/-- A channel that the table does not hold enters it. -/
theorem TableOf.addCid (h : TableOf a l.cids) (hknown : cid = 0 ∨ cid ∈ a)
    (hnew : cidExists l.cids cid = false) : TableOf a (l.addCid cid).2.cids := by
  unfold Layer.addCid
  split
  · rename_i cids' hup
    obtain ⟨pre, e, post, hcids, -, -, rfl⟩ := updateFirst_eq_some hup
    have hother : ∀ x ∈ l.cids, x.cid ≠ cid := by
      unfold cidExists at hnew
      simpa using hnew
    rw [hcids] at h hother
    refine h.replace hknown ?_ ?_
    · intro x hx hcid
      exact absurd hcid (hother x (List.mem_append_left _ hx))
    · intro y hy hcid
      exact absurd hcid.symm (hother y (List.mem_append_right _ (List.mem_cons_of_mem _ hy)))
  · exact h

/-- Entries that keep their channels and are freed. -/
theorem TableOf.freed (h : TableOf a cids)
    (hfreed : List.Forall₂ (fun e e' : Cid => e'.cid = e.cid ∧ (e.busy = false → e'.busy = false)) cids cids') :
    TableOf a cids' := by
  induction hfreed with
  | nil => exact h
  | @cons e e' es es' he hes ih =>
    have htail : TableOf a es :=
      ⟨fun x hx => h.known x (List.mem_cons_of_mem _ hx), (List.pairwise_cons.mp h.later).2⟩
    obtain ⟨hknown, hlater⟩ := ih htail
    refine ⟨?_, List.pairwise_cons.mpr ⟨?_, hlater⟩⟩
    · intro x hx
      rcases List.mem_cons.mp hx with rfl | hx
      · rw [he.1]
        exact h.known e List.mem_cons_self
      · exact hknown x hx
    · intro y' hy' hcid
      obtain ⟨y, hy, hyy⟩ : ∃ y ∈ es, y'.cid = y.cid ∧ (y.busy = false → y'.busy = false) := by
        obtain ⟨i, hi, rfl⟩ := List.getElem_of_mem hy'
        have hi' : i < es.length := by rw [hes.length_eq]; exact hi
        exact ⟨es[i], List.getElem_mem hi', List.forall₂_iff_get.mp hes |>.2 i hi' hi⟩
      refine hyy.2 ((List.pairwise_cons.mp h.later).1 y hy ?_)
      rw [← he.1, hcid, hyy.1]

theorem checkTimeoutsLoop_freed (cs : List Cid) (l : Layer) :
    List.Forall₂ (fun e e' : Cid => e'.cid = e.cid ∧ (e.busy = false → e'.busy = false)) cs
      (checkTimeoutsLoop cs l).1 := by
  induction cs generalizing l with
  | nil => exact .nil
  | cons c cs ih =>
    refine .cons ⟨checkTimeout_cid c l, fun hfree => ?_⟩ (ih _)
    unfold checkTimeout
    simp [hfree]

/-- Two busy entries of such a table have different channels. -/
theorem TableOf.busy_ne (h : TableOf a cids) :
    cids.Pairwise fun e e' => e.busy = true → e'.busy = true → e.cid ≠ e'.cid := by
  refine h.later.imp fun hlater _ hbusy hcid => ?_
  rw [hlater hcid] at hbusy
  cases hbusy

end Table

section Runs

variable {version : Version} {P : Platform} {env : Env} {d d' : Device} {pkt : Packet} {l : Layer}
  {a : List UInt32}

theorem TableOf.enterChannel (h : TableOf a l.cids) (hcid : pkt.cid ≠ ctaphidBroadcastCid)
    (hinit : pkt.isInitPkt = false) (hok : Enters l pkt → pkt.cid = 0 ∨ pkt.cid ∈ a) :
    TableOf a (enterChannel l pkt).cids := by
  unfold Hid.enterChannel
  split_ifs with hnew
  · simp only [Bool.and_eq_true, Bool.not_eq_true', beq_iff_eq] at hnew
    obtain ⟨⟨hnot, hcont⟩, hempty⟩ := hnew
    refine h.addCid (hok ⟨hcid, hnot, ?_⟩) hnot
    rw [if_neg (by simp [hinit])]
    exact ⟨hcont, hempty⟩
  · exact h

theorem Takes.tableOf {b : Buffer} {cids : List Cid} (h : Takes l pkt b cids) (ht : TableOf a l.cids)
    (hok : Enters l pkt → pkt.cid = 0 ∨ pkt.cid ∈ a) : TableOf a cids := by
  cases h with
  | first hinit hcont hcid hst hlen hexists hb => exact (ht.enterChannel hcid hinit hok).refreshed _ _
  | next => exact ht.refreshed _ _

theorem TableOf.replyInit {newcid : UInt32} {r : Bool × Layer} (h : TableOf a r.2.cids) :
    TableOf a (replyInit version pkt newcid r).2.cids := by
  unfold Hid.replyInit
  split_ifs
  · rw [cidDel_cids]
    exact h.released newcid
  · exact h

/-- A `CTAPHID_INIT` enters the channel it names, or the one it allocates. -/
theorem TableOf.bufferInitPacket (h : TableOf a l.cids) (hinit : pkt.isInitPkt = true)
    (hok : Enters l pkt → pkt.cid = 0 ∨ pkt.cid ∈ a) (hnew : cidExists l.cids (getNewCid l.lastCid) = false) :
    TableOf (if pkt.allocates then getNewCid l.lastCid :: a else a)
      (bufferInitPacket version l pkt).2.cids := by
  by_cases hlen : pkt.len = 8
  · by_cases hb : pkt.isBroadcast = true
    · have hcid : pkt.cid ≠ 0 := by
        intro hcid
        have hall : pkt.cid = ctaphidBroadcastCid := by simpa [Packet.isBroadcast] using hb
        rw [hcid] at hall
        exact absurd hall (by decide)
      have halloc : pkt.allocates = true := by simp [Packet.allocates, hinit, hb, hlen]
      rw [if_pos halloc]
      unfold Hid.bufferInitPacket
      rw [if_neg (by simpa using hlen), if_neg hcid]
      simp only [hb, if_true]
      refine TableOf.replyInit (TableOf.addCid ?_ (.inr List.mem_cons_self) hnew)
      exact h.mono _
    · have halloc : pkt.allocates = false := by simp [Packet.allocates, hb]
      have hcid : pkt.cid ≠ ctaphidBroadcastCid := by simpa [Packet.isBroadcast] using hb
      rw [halloc]
      unfold Hid.bufferInitPacket
      rw [if_neg (c := pkt.len ≠ 8) (by simpa using hlen)]
      simp only [hb, Bool.false_eq_true, if_false]
      split_ifs with hzero hexists
      · exact h
      · obtain ⟨now, hcids⟩ := cidRefresh_cids { l with buffer := l.buffer.reset } pkt.cid
        refine TableOf.replyInit ?_
        rw [hcids]
        exact h.refreshed _ _
      · refine TableOf.replyInit (TableOf.addCid h (hok ⟨hcid, by simpa using hexists, ?_⟩) ?_)
        · rw [if_pos hinit]
          exact hlen
        · simpa using hexists
  · have halloc : pkt.allocates = false := by simp [Packet.allocates, hlen]
    rw [halloc]
    unfold Hid.bufferInitPacket
    rw [if_pos hlen]
    exact h

/-- What one packet leaves of the table. -/
theorem TableOf.handle (h : TableOf a d.layer.cids) (hbusy : d.isBusy = false) (hok : UsesAllocated a d pkt)
    (hnew : cidExists d.layer.cids (getNewCid d.layer.lastCid) = false)
    (hp : ctaphidHandlePacket version P env d pkt = .ok d') :
    TableOf (if pkt.allocates then getNewCid d.layer.lastCid :: a else a) d'.layer.cids := by
  by_cases hinit : pkt.isInitPkt = true
  · have hpkt : ctaphidBufferPacket version d.layer pkt
        = some ((Hid.bufferInitPacket version d.layer pkt).1, (Hid.bufferInitPacket version d.layer pkt).2) := by
      unfold ctaphidBufferPacket
      rw [if_pos hinit]
    have htable : TableOf _ (Hid.bufferInitPacket version d.layer pkt).2.cids := h.bufferInitPacket hinit hok hnew
    rcases bufferInitPacket_status version d.layer pkt with hst | hst
    · rw [handlePacket_error hpkt hst] at hp
      obtain rfl := Except.ok.inj hp
      rw [(handleError_layer _ _ _).1]
      exact htable.released _
    · rw [handlePacket_ignored hpkt hst] at hp
      obtain rfl := Except.ok.inj hp
      exact htable
  have halloc : pkt.allocates = false := by simp [Packet.allocates, hinit]
  have hinit' : pkt.isInitPkt = false := by simpa using hinit
  rw [halloc]
  by_cases hcid : pkt.cid = ctaphidBroadcastCid
  · have hpkt : ctaphidBufferPacket version d.layer pkt
        = some (⟨.hidError, pkt.cid, ctap1ErrInvalidChannel, 0⟩, d.layer) := by
      unfold ctaphidBufferPacket
      rw [if_neg hinit, if_pos hcid]
    rw [handlePacket_error hpkt rfl] at hp
    obtain rfl := Except.ok.inj hp
    rw [(handleError_layer _ _ _).1]
    exact h.released _
  have hmoves := (moves_of_handle hbusy hp).2
  show TableOf a d'.layer.cids
  generalize d'.layer.cids = cids at hmoves ⊢
  generalize d'.layer.buffer = b at hmoves
  cases hmoves with
  | ignored => exact h
  | refused => exact h.released _
  | tooLong => exact (h.enterChannel hcid hinit' hok).released _
  | init hinit => simp [hinit'] at hinit
  | aborted => exact h.released _
  | buffering ht => exact ht.tableOf h hok
  | served ht => exact (ht.tableOf h hok).released _
  | left ht => exact ht.tableOf h hok

/-- A channel that the table does not hold. -/
theorem TableOf.not_exists {c : UInt32} (h : TableOf a l.cids) (hzero : c ≠ 0) (hnot : c ∉ a) :
    cidExists l.cids c = false := by
  have hall : ∀ e ∈ l.cids, e.cid ≠ c := by
    rintro e he rfl
    rcases h.known e he with h0 | hmem
    · exact hzero h0
    · exact hnot hmem
  unfold cidExists
  simpa using hall

theorem Allocated.tableOf (h : Allocated version P UsesAllocated a d) (hn : a.length < 2 ^ 32 - 2) :
    TableOf a d.layer.cids := by
  induction h with
  | @start d h =>
    rw [h.1]
    refine ⟨?_, ?_⟩
    · intro e he
      exact .inl (by rw [List.eq_of_mem_replicate he])
    · refine List.pairwise_replicate.mpr (.inr ?_)
      intro _
      rfl
  | @packet a d d' h env pkt hok hp ih =>
    have hlen : a.length < 2 ^ 32 - 2 := by
      refine lt_of_le_of_lt ?_ hn
      split_ifs <;> simp
    obtain ⟨hzero, -, hnot⟩ := (h.counted hlen).fresh hlen
    exact (ih hlen).handle h.reached.sound.1 hok ((ih hlen).not_exists hzero hnot) hp
  | @timeouts a d h ih => exact (ih hn).freed (checkTimeoutsLoop_freed d.layer.cids d.layer)

end Runs

/-! ## The reply -/

section Reply

variable {version : Version} {P : Platform} {env : Env} {d d' : Device} {pkt : Packet} {a : List UInt32}
  {c newcid : UInt32} {nonce : List UInt8}

theorem length_initPayload (pkt : Packet) : pkt.initPayload.length = 57 := by
  simp [Packet.initPayload]

/-- The reply to a `CTAPHID_INIT` is one report. -/
theorem sendInitResponse_eq (version : Version) (cid newcid : UInt32) (h : nonce.length = 57) :
    sendInitResponse version cid newcid nonce
      = [initReport cid ctaphidInit 17 (nonce.take 8 ++ le32 newcid ++
          [ctaphidProtocolVersion, version.1, version.2.1, version.2.2, ctapCapabilities])] := by
  unfold sendInitResponse
  rw [sendMessage_eq_reports _ (by simp)]
  unfold reports
  simp [h, List.take_of_length_le, List.drop_of_length_le]

/-- The reply shows the new channel. -/
theorem sendInitResponse_inj {cid c c' : UInt32} (h : nonce.length = 57)
    (heq : sendInitResponse version cid c nonce = sendInitResponse version cid c' nonce) : c = c' := by
  rw [sendInitResponse_eq _ _ _ h, sendInitResponse_eq _ _ _ h] at heq
  have hpkt := List.singleton_injective heq
  have hpayload := congrArg (fun p : Packet => p.initPayload.take 17) hpkt
  have hread : ∀ c : UInt32, (initReport cid ctaphidInit 17 (nonce.take 8 ++ le32 c ++
      [ctaphidProtocolVersion, version.1, version.2.1, version.2.2, ctapCapabilities])).initPayload.take 17
      = nonce.take 8 ++ le32 c ++
        [ctaphidProtocolVersion, version.1, version.2.1, version.2.2, ctapCapabilities] := by
    intro c
    have hlen : (nonce.take 8 ++ le32 c ++ [ctaphidProtocolVersion, version.1, version.2.1, version.2.2,
        ctapCapabilities]).length = 17 := by simp [h]
    have := initReport_payload cid ctaphidInit 17 (hlen.trans_le (by decide))
    rwa [hlen] at this
  rw [hread, hread, List.append_assoc, List.append_assoc] at hpayload
  have htail := List.append_cancel_left hpayload
  rw [← ofLe32_le32 c, htail, ofLe32_le32]

/-- An error report is no reply to a `CTAPHID_INIT`. -/
theorem sendInitResponse_ne_error {cid : UInt32} {e : UInt8} (h : nonce.length = 57) :
    sendInitResponse version cid c nonce ≠ (Message.error cid e).packets := by
  have herror : (Message.error cid e).packets = [initReport cid ctaphidError 1 [e]] := by
    unfold Message.packets Message.error
    rw [sendMessage_eq_reports _ (by simp)]
    unfold reports
    simp
  rw [sendInitResponse_eq _ _ _ h, herror]
  intro heq
  have hcmd := congrArg Packet.cmd (List.singleton_injective heq)
  rw [initReport_cmd _ _ _ (by simp [h]), initReport_cmd _ _ _ (by simp)] at hcmd
  exact absurd hcmd (by decide)

theorem addCid_sent (l : Layer) (cid : UInt32) : (l.addCid cid).2.sent = l.sent := by
  unfold Layer.addCid
  split <;> rfl

theorem cidDel_sent (l : Layer) (cid : UInt32) : (l.cidDel cid).sent = l.sent := by
  unfold Layer.cidDel
  split <;> rfl

theorem handleError_sent (d : Device) (cid : UInt32) (e : UInt8) :
    (handleError d cid e).layer.sent = d.layer.sent ++ (Message.error cid e).packets := by
  unfold handleError Layer.send
  split_ifs <;> simp [cidDel_sent, Layer.bufferReset]

/-- What `ctaphid_buffer_packet` sends for a broadcast `CTAPHID_INIT`: nothing, or the reply. -/
theorem bufferInitPacket_sent (version : Version) (l : Layer) (hb : pkt.isBroadcast = true) :
    (bufferInitPacket version l pkt).2.sent
      = if (bufferInitPacket version l pkt).1.status = .hidError then l.sent
        else l.sent ++ sendInitResponse version pkt.cid (getNewCid l.lastCid) pkt.initPayload := by
  have hcid : pkt.cid ≠ 0 := by
    intro hcid
    have hall : pkt.cid = ctaphidBroadcastCid := by simpa [Packet.isBroadcast] using hb
    rw [hcid] at hall
    exact absurd hall (by decide)
  unfold bufferInitPacket
  by_cases hlen : pkt.len ≠ 8
  · simp [hlen]
  · rw [if_neg hlen, if_neg hcid]
    simp only [hb, if_true]
    unfold replyInit
    by_cases hadd : (Layer.addCid { l with buffer := l.buffer.reset, lastCid := getNewCid l.lastCid }
        (getNewCid l.lastCid)).1 = true
    · simp only [hadd, if_true, reduceCtorEq, if_false, cidDel_sent, addCid_sent]
    · simp only [hadd, Bool.false_eq_true, if_true, if_false, addCid_sent]

/-- The channel in the reply to a broadcast `CTAPHID_INIT` is the one that `get_new_cid` gave. -/
theorem newcid_eq (hinit : pkt.isInitPkt = true) (hb : pkt.isBroadcast = true)
    (hp : ctaphidHandlePacket version P env d pkt = .ok d')
    (hsent : d'.layer.sent = d.layer.sent ++ sendInitResponse version pkt.cid newcid pkt.initPayload) :
    newcid = getNewCid d.layer.lastCid := by
  have hpkt : ctaphidBufferPacket version d.layer pkt
      = some ((bufferInitPacket version d.layer pkt).1, (bufferInitPacket version d.layer pkt).2) := by
    unfold ctaphidBufferPacket
    rw [if_pos hinit]
  have hnonce := length_initPayload pkt
  have hsends := bufferInitPacket_sent version d.layer hb
  obtain ⟨hcid, -, hst⟩ := bufferInitPacket_received version d.layer pkt
  rcases hst with hst | hst
  · rw [handlePacket_error hpkt hst] at hp
    obtain rfl := Except.ok.inj hp
    rw [handleError_sent, hcid] at hsent
    rw [if_pos hst] at hsends
    simp only [hsends] at hsent
    exact absurd (List.append_cancel_left hsent).symm (sendInitResponse_ne_error hnonce)
  · rw [handlePacket_ignored hpkt hst] at hp
    obtain rfl := Except.ok.inj hp
    rw [if_neg (by simp [hst])] at hsends
    simp only [hsends] at hsent
    exact sendInitResponse_inj hnonce (List.append_cancel_left hsent).symm

/-- **A new channel is fresh**, and no two busy entries share a channel, in every run in which only
allocated channels enter the table. -/
theorem allocated_channel_is_fresh (h : Allocated version P UsesAllocated a d)
    (hn : a.length < 2 ^ 32 - 2) :
    (∀ env pkt d' newcid, pkt.isInitPkt = true → pkt.isBroadcast = true →
      ctaphidHandlePacket version P env d pkt = .ok d' →
      d'.layer.sent = d.layer.sent ++ sendInitResponse version pkt.cid newcid pkt.initPayload →
      newcid ≠ 0 ∧ newcid ≠ ctaphidBroadcastCid ∧ newcid ∉ a ∧
        ∀ e ∈ d.layer.cids, e.busy = true → e.cid ≠ newcid) ∧
    d.layer.cids.Pairwise fun e e' => e.busy = true → e'.busy = true → e.cid ≠ e'.cid := by
  have htable := h.tableOf hn
  refine ⟨?_, htable.busy_ne⟩
  intro env pkt d' newcid hinit hb hp hsent
  obtain rfl := newcid_eq hinit hb hp hsent
  obtain ⟨hzero, hmax, hnew⟩ := (h.counted hn).fresh hn
  refine ⟨hzero, hmax, hnew, ?_⟩
  rintro e he - hcid
  rcases htable.known e he with h0 | hmem
  · exact hzero (hcid.symm.trans h0)
  · exact hnew (hcid ▸ hmem)

end Reply

/-- The first packet of a run. -/
theorem allocated_of_simHandle {pkt : Packet} {d : Device} {ok : List UInt32 → Device → Packet → Prop}
    (hok : ok [] simDevice pkt) (h : d ∈ simHandle [pkt]) :
    Allocated simVersion simPlatform ok
      (if pkt.allocates then getNewCid simDevice.layer.lastCid :: [] else []) d :=
  (Allocated.start simDevice_isStarted).packet simEnv pkt hok (handlePacket_of_simHandle h)

/-- The report with which a host asks for a channel. -/
def simInit : Packet := initReport ctaphidBroadcastCid ctaphidInit 8 [1, 2, 3, 4, 5, 6, 7, 8]

theorem handlePacket_of_mem {d d' : Device} {pkt : Packet}
    (h : d' ∈ (ctaphidHandlePacket simVersion simPlatform simEnv d pkt).toOption) :
    ctaphidHandlePacket simVersion simPlatform simEnv d pkt = .ok d' := by
  cases hp : ctaphidHandlePacket simVersion simPlatform simEnv d pkt with
  | ok d₁ =>
    rw [hp] at h
    exact congrArg _ (Option.some.inj h)
  | error e =>
    rw [hp] at h
    cases h

/-- The second client of a device gets a channel of its own. -/
theorem allocated_channel_is_fresh_second : ∃ d, Allocated simVersion simPlatform UsesAllocated [2] d ∧
    ∃ d', ctaphidHandlePacket simVersion simPlatform simEnv d simInit = .ok d' ∧
      d'.layer.sent = d.layer.sent ++ sendInitResponse simVersion simInit.cid 3 simInit.initPayload ∧
      (3 : UInt32) ∉ [2] ∧ ∀ e ∈ d.layer.cids, e.busy = true → e.cid ≠ 3 := by
  obtain ⟨d, hd, d', hd', hsent⟩ : ∃ d ∈ simHandle [simInit],
      ∃ d' ∈ (ctaphidHandlePacket simVersion simPlatform simEnv d simInit).toOption,
        d'.layer.sent = d.layer.sent ++ sendInitResponse simVersion simInit.cid 3 simInit.initPayload := by
    decide +kernel
  have h : Allocated simVersion simPlatform UsesAllocated [2] d :=
    allocated_of_simHandle (fun henters => absurd henters.1 (by decide +kernel)) hd
  have hp := handlePacket_of_mem hd'
  obtain ⟨-, -, hnew, hbusy⟩ := (allocated_channel_is_fresh h (by decide)).1 simEnv simInit d' 3
    (by decide +kernel) (by decide +kernel) hp hsent
  exact ⟨d, h, d', hp, hsent, hnew, hbusy⟩

/-- A host that opens a message on channel 2, which was not allocated yet, shares it with the next host
that asks for a channel. -/
theorem chosen_channel_is_given_out :
    ¬ ∀ (version : Version) (P : Platform) (env : Env) (a : List UInt32) (d d' : Device) (pkt : Packet)
      (newcid : UInt32), Allocated version P (fun _ _ _ => True) a d → a.length < 2 ^ 32 - 2 →
      pkt.isInitPkt = true → pkt.isBroadcast = true → ctaphidHandlePacket version P env d pkt = .ok d' →
      d'.layer.sent = d.layer.sent ++ sendInitResponse version pkt.cid newcid pkt.initPayload →
      ∀ e ∈ d.layer.cids, e.busy = true → e.cid ≠ newcid := by
  intro hall
  obtain ⟨d, hd, hbusy, d', hd', hsent⟩ : ∃ d ∈ simHandle [simOpening],
      (∃ e ∈ d.layer.cids, e.busy = true ∧ e.cid = 2) ∧
      ∃ d' ∈ (ctaphidHandlePacket simVersion simPlatform simEnv d simInit).toOption,
        d'.layer.sent = d.layer.sent ++ sendInitResponse simVersion simInit.cid 2 simInit.initPayload := by
    decide +kernel
  obtain ⟨e, he, hb, hcid⟩ := hbusy
  exact hall _ _ simEnv _ d d' simInit 2 (allocated_of_simHandle trivial hd) (by decide) (by decide +kernel)
    (by decide +kernel) (handlePacket_of_mem hd') hsent e he hb hcid

end TkeyFido2.Hid
