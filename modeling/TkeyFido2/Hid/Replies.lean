import TkeyFido2.Hid.Invariants

/-!
# Replies

How many messages the host gets for a request.  A host counts the packets that begin a message;
the KEEPALIVE messages that are sent while a request is processed do not count.
-/

namespace TkeyFido2.Hid

open Cbor Prog

/-! ## Counting messages -/

/-- The first packet of a message that is no KEEPALIVE. -/
def Packet.startsReply (p : Packet) : Bool := !p.isContPkt && p.cmd != ctaphidKeepalive

/-- The number of replies in a stream of packets. -/
def replies (pkts : List Packet) : Nat := pkts.countP Packet.startsReply

@[simp] theorem replies_append (xs ys : List Packet) : replies (xs ++ ys) = replies xs + replies ys :=
  List.countP_append

/-- A message with a command byte and few enough packets for the sequence numbers. -/
structure Message.Plain (m : Message) : Prop where
  isCommand : m.cmd &&& typeInit ≠ 0
  short : m.pieces.flatten.length ≤ ctaphidBufferSize

section Counting

variable {cid : UInt32} {cmd : UInt8} {bcnt : UInt16}

theorem contReports_replies {k : Nat} {l : List UInt8} (h : k * 59 + l.length ≤ 128 * 59) :
    replies (contReports cid k l) = 0 := by
  induction k, l using contReports.induct with
  | case1 k => simp [replies]
  | case2 k l hl ih =>
    have hpos := List.length_pos_iff.mpr hl
    have hseq : (contReport cid (UInt8.ofNat k) (l.take 59)).isContPkt = true := by
      have := contReport_seq cid (UInt8.ofNat k) (p := l.take 59) (by simp)
      simp only [Packet.isContPkt, Packet.cmd, Packet.seq, beq_iff_eq] at this ⊢
      rw [this, seq_and_typeInit k (by omega)]
    rw [contReports_cons cid k hl]
    unfold replies at ih ⊢
    rw [List.countP_cons_of_neg (by simp [Packet.startsReply, hseq])]
    exact ih (by rw [List.length_drop]; omega)

/-- A message without payload is one packet. -/
theorem sendMessage_nil {pieces : List (List UInt8)} (h : pieces.flatten = []) :
    sendMessage cid cmd bcnt pieces = [initReport cid cmd bcnt []] := by
  have hw : ∀ (pieces : List (List UInt8)) (wb : WriteBuffer), pieces.flatten = [] →
      (wb.writes (pieces.map some ++ [none])).2 = wb.flush.2 := by
    intro pieces
    induction pieces with
    | nil => intro wb _; simp [WriteBuffer.writes, WriteBuffer.ctaphidWrite]
    | cons p ps ih =>
      intro wb hf
      obtain ⟨rfl, hps⟩ : p = [] ∧ ps.flatten = [] := by simpa using hf
      simpa [WriteBuffer.writes, WriteBuffer.ctaphidWrite, WriteBuffer.putBytes] using ih wb hps
  set wb : WriteBuffer := { cid, cmd, bcnt } with hwb
  have hstart : wb.flush = wb.startInit.flush := by
    simp [WriteBuffer.flush, WriteBuffer.startInit, hwb]
  have hpre := startInit_take wb rfl
  rw [sendMessage, hw _ _ h, hstart, flush_started wb.startInit (by simp [WriteBuffer.startInit, hwb])
    (by simp) (by simp) hpre, initReport, List.append_nil]

theorem Message.Plain.replies_packets {m : Message} (h : m.Plain) :
    replies m.packets = (if m.cmd = ctaphidKeepalive then 0 else 1) ∧ ∀ p ∈ m.packets, p.cid = m.cid := by
  have hsize : m.pieces.flatten.length ≤ 1344 := h.short
  obtain ⟨l, hl, hpkts⟩ : ∃ l : List UInt8, l.length ≤ 1344 ∧
      m.packets = initReport m.cid m.cmd m.bcnt (l.take 57) :: contReports m.cid 0 (l.drop 57) := by
    by_cases hempty : m.pieces.flatten = []
    · refine ⟨[], by simp, ?_⟩
      rw [Message.packets, sendMessage_nil hempty]
      simp
    · refine ⟨m.pieces.flatten, hsize, ?_⟩
      rw [Message.packets, sendMessage_eq_reports m.pieces hempty, reports]
  have hp : (l.take 57).length ≤ 57 := by simp
  have hcmd := initReport_cmd m.cid m.cmd m.bcnt hp
  have hfirst : (initReport m.cid m.cmd m.bcnt (l.take 57)).isContPkt = false := by
    simpa [Packet.isContPkt, hcmd] using h.isCommand
  have hrest : replies (contReports m.cid 0 (l.drop 57)) = 0 :=
    contReports_replies (by rw [List.length_drop]; omega)
  rw [hpkts]
  constructor
  · unfold replies at hrest ⊢
    rw [List.countP_cons, hrest]
    simp only [Packet.startsReply, hfirst, hcmd, Bool.not_false, Bool.true_and, bne_iff_ne, zero_add]
    split_ifs <;> simp_all
  · intro p hpmem
    rcases List.mem_cons.mp hpmem with rfl | hpmem
    · exact initReport_cid _ _ _ hp
    · exact contReports_cid _ _ _ p hpmem

theorem plain_error (cid : UInt32) (e : UInt8) : (Message.error cid e).Plain :=
  ⟨by show ctaphidError &&& typeInit ≠ 0; decide, by simp [Message.error, ctaphidBufferSize]⟩

theorem plain_keepalive (cid : UInt32) (status : UInt8) : (Message.keepalive cid status).Plain :=
  ⟨by show ctaphidKeepalive &&& typeInit ≠ 0; decide, by simp [Message.keepalive, ctaphidBufferSize]⟩

end Counting

/-! ## The replies of a command -/

/-- From `d` to `d'` the host gets `n` replies, and packets of one channel only. -/
def Answers (n : Nat) (cid : UInt32) (d d' : Device) : Prop :=
  ∃ new, d'.layer.sent = d.layer.sent ++ new ∧ replies new = n ∧ ∀ p ∈ new, p.cid = cid

section Answers

variable {version : Version} {P : Platform} {env : Env} {d d' d'' : Device} {cid : UInt32} {cmd : UInt8}
  {len : UInt16} {done : Bool} {n : Nat}

theorem Answers.congr (h : Answers n cid d d') (hs : d''.layer.sent = d'.layer.sent) :
    Answers n cid d d'' := by
  obtain ⟨new, hsent, hn, hcid⟩ := h
  exact ⟨new, hs.trans hsent, hn, hcid⟩

theorem Answers.unique {m : Nat} (h : Answers n cid d d') (h' : Answers m cid d d') : n = m := by
  obtain ⟨new, hsent, rfl, -⟩ := h
  obtain ⟨new', hsent', rfl, -⟩ := h'
  rw [List.append_cancel_left (hsent.symm.trans hsent')]

/-- One more message. -/
theorem Answers.send {m : Message} (h : Answers n cid d d') (hm : m.Plain) (hcid : m.cid = cid)
    (hcmd : m.cmd ≠ ctaphidKeepalive) : Answers (n + 1) cid d (d'.send [m]) := by
  obtain ⟨new, hsent, rfl, hnew⟩ := h
  obtain ⟨hone, hall⟩ := hm.replies_packets
  refine ⟨new ++ m.packets, ?_, ?_, ?_⟩
  · simp [Device.send, Layer.send, hsent]
  · rw [replies_append, hone, if_neg hcmd]
  · intro p hp
    rcases List.mem_append.mp hp with hp | hp
    · exact hnew p hp
    · exact (hall p hp).trans hcid

theorem Answers.reply {bcnt : UInt16} {pieces : List (List UInt8)} (h : Answers n cid d d')
    (hcmd : cmd &&& typeInit ≠ 0) (hne : cmd ≠ ctaphidKeepalive) (hlen : pieces.flatten.length ≤ 1344) :
    Answers (n + 1) cid d (d'.send [⟨cid, cmd, bcnt, pieces⟩]) :=
  h.send ⟨hcmd, hlen⟩ rfl hne

theorem keepalives_replies (cid : UInt32) (statuses : List UInt8) :
    replies ((statuses.map (Message.keepalive cid)).flatMap Message.packets) = 0 ∧
      ∀ p ∈ (statuses.map (Message.keepalive cid)).flatMap Message.packets, p.cid = cid := by
  induction statuses with
  | nil => simp [replies]
  | cons s ss ih =>
    obtain ⟨hone, hall⟩ := (plain_keepalive cid s).replies_packets
    have hzero : replies (Message.keepalive cid s).packets = 0 := hone.trans (if_pos rfl)
    simp only [List.map_cons, List.flatMap_cons, replies_append, hzero, ih.1, List.mem_append, add_zero,
      true_and]
    rintro p (hp | hp)
    · exact hall p hp
    · exact ih.2 p hp

/-- KEEPALIVE messages do not count. -/
theorem Answers.sendStatuses (h : Answers n cid d d') : Answers n cid d (d'.sendStatuses env cid) := by
  obtain ⟨new, hsent, rfl, hnew⟩ := h
  set statuses := ctaphidStatusProcessing :: presenceStatuses env.polls 0 d'.world.trace with hst
  obtain ⟨hzero, hall⟩ := keepalives_replies cid statuses
  refine ⟨new ++ (statuses.map (Message.keepalive cid)).flatMap Message.packets, ?_, ?_, ?_⟩
  · simp [Device.sendStatuses, Device.send, Layer.send, hsent, hst]
  · rw [replies_append, hzero, add_zero]
  · intro p hp
    rcases List.mem_append.mp hp with hp | hp
    · exact hnew p hp
    · exact hall p hp

end Answers

/-! ## Requests that return -/

section Returns

variable {version : Version} {P : Platform} {env : Env} {d d' : Device} {pkt : Packet} {cid : UInt32}
  {cmd : UInt8} {len : UInt16} {r : Received} {l : Layer}

end Returns

end TkeyFido2.Hid
