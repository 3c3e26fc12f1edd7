import TkeyFido2.Hid.Ctaphid

/-!
# Fragmenting and reassembling a message

`sendMessage` cuts a payload into reports, 57 bytes in the first and 59 in each later one, however
the caller splits the payload over its `ctaphid_write` calls.  `ctaphid_buffer_packet` puts them
together again, and while a message is under way no packet of another channel, `CTAPHID_INIT`
apart, moves the layer at all.  Both sides are compared with `reports`, the plain description of
the packet stream.
-/

namespace TkeyFido2.Hid

/-- The first report of a message, carrying `p`. -/
def initReport (cid : UInt32) (cmd : UInt8) (bcnt : UInt16) (p : List UInt8) : Packet :=
  Bytes.ofList 64
    (le32 cid ++ [cmd, UInt8.ofNat (bcnt.toNat / 256), UInt8.ofNat bcnt.toNat] ++ p)

/-- A continuation report, carrying `p`. -/
def contReport (cid : UInt32) (seq : UInt8) (p : List UInt8) : Packet :=
  Bytes.ofList 64 (le32 cid ++ [seq] ++ p)

/-- The continuation reports of the bytes behind the first report, numbered from `k`. -/
def contReports (cid : UInt32) (k : Nat) (l : List UInt8) : List Packet :=
  if h : l = [] then []
  else contReport cid (UInt8.ofNat k) (l.take 59) :: contReports cid (k + 1) (l.drop 59)
termination_by l.length
decreasing_by
  have := List.length_pos_iff.mpr h
  simp only [List.length_drop]
  omega

/-- The reports of a message. -/
def reports (cid : UInt32) (cmd : UInt8) (bcnt : UInt16) (l : List UInt8) : List Packet :=
  initReport cid cmd bcnt (l.take 57) :: contReports cid 0 (l.drop 57)

@[simp] theorem contReports_nil (cid : UInt32) (k : Nat) : contReports cid k [] = [] := by
  rw [contReports]; simp

theorem contReports_cons (cid : UInt32) (k : Nat) {l : List UInt8} (h : l ≠ []) :
    contReports cid k l
      = contReport cid (UInt8.ofNat k) (l.take 59) :: contReports cid (k + 1) (l.drop 59) := by
  rw [contReports]; simp [h]

theorem contReports_append (cid : UInt32) (p : List UInt8) :
    ∀ (q k : Nat) (l : List UInt8), l.length = 59 * q →
      contReports cid k (l ++ p) = contReports cid k l ++ contReports cid (k + q) p := by
  intro q
  induction q with
  | zero =>
    intro k l hl
    obtain rfl : l = [] := List.length_eq_zero_iff.mp (by omega)
    simp
  | succ q ih =>
    intro k l hl
    have hne : l ≠ [] := List.ne_nil_of_length_pos (by omega)
    rw [contReports_cons cid k hne, contReports_cons cid k (by simp [hne]),
      List.take_append_of_le_length (by omega), List.drop_append_of_le_length (by omega),
      ih (k + 1) _ (by rw [List.length_drop]; omega), List.cons_append]
    congr 3
    omega

/-- One more continuation report behind a message of full reports. -/
theorem reports_append (cid : UInt32) (cmd : UInt8) (bcnt : UInt16) {d p : List UInt8} {k : Nat}
    (hd : d.length = 57 + 59 * k) (hp : p ≠ []) (hp' : p.length ≤ 59) :
    reports cid cmd bcnt (d ++ p)
      = reports cid cmd bcnt d ++ [contReport cid (UInt8.ofNat k) p] := by
  rw [reports, reports, List.take_append_of_le_length (by omega),
    List.drop_append_of_le_length (by omega),
    contReports_append cid p k 0 _ (by rw [List.length_drop]; omega), contReports_cons _ _ hp,
    List.take_of_length_le hp', List.drop_eq_nil_of_le hp']
  simp

/-! ## The writer -/

section Writer

variable {cid : UInt32} {cmd : UInt8} {bcnt : UInt16}

/-- What the write buffer and the reports sent so far hold after the bytes `d`. -/
inductive Writing (cid : UInt32) (cmd : UInt8) (bcnt : UInt16) :
    List UInt8 → WriteBuffer → List Packet → Prop
  | start {wb : WriteBuffer} : wb.cid = cid → wb.cmd = cmd → wb.bcnt = bcnt → wb.offset = 0 →
      wb.bytesWritten = 0 → wb.seq = 0 → Writing cid cmd bcnt [] wb []
  | first {wb : WriteBuffer} {p : List UInt8} : wb.cid = cid → wb.cmd = cmd → wb.bcnt = bcnt →
      p ≠ [] → p.length < 57 → wb.offset = 7 + p.length → wb.bytesWritten = p.length →
      wb.seq = 0 →
      wb.buf.toList.take wb.offset
        = le32 cid ++ [cmd, UInt8.ofNat (bcnt.toNat / 256), UInt8.ofNat bcnt.toNat] ++ p →
      Writing cid cmd bcnt p wb []
  | between {wb : WriteBuffer} {d : List UInt8} {k : Nat} : wb.cid = cid → wb.cmd = cmd →
      wb.bcnt = bcnt → d.length = 57 + 59 * k → wb.offset = 0 → wb.bytesWritten = d.length →
      wb.seq = UInt8.ofNat k → Writing cid cmd bcnt d wb (reports cid cmd bcnt d)
  | cont {wb : WriteBuffer} {d p : List UInt8} {k : Nat} : wb.cid = cid → wb.cmd = cmd →
      wb.bcnt = bcnt → d.length = 57 + 59 * k → p ≠ [] → p.length < 59 →
      wb.offset = 5 + p.length → wb.bytesWritten = (d ++ p).length →
      wb.seq = UInt8.ofNat (k + 1) →
      wb.buf.toList.take wb.offset = le32 cid ++ [UInt8.ofNat k] ++ p →
      Writing cid cmd bcnt (d ++ p) wb (reports cid cmd bcnt d)

/-- A byte put into a report that is under way. -/
theorem putByte_started (wb : WriteBuffer) (b : UInt8) {pre : List UInt8}
    (hoff : wb.offset = pre.length) (hpos : 0 < pre.length) (hlt : pre.length < 64)
    (hbuf : wb.buf.toList.take wb.offset = pre) :
    ∃ wb', wb.putByte b = (wb', if pre.length = 63 then [Bytes.ofList 64 (pre ++ [b])] else []) ∧
      wb'.cid = wb.cid ∧ wb'.cmd = wb.cmd ∧ wb'.bcnt = wb.bcnt ∧ wb'.seq = wb.seq ∧
      wb'.bytesWritten = wb.bytesWritten + 1 ∧
      wb'.offset = (if pre.length = 63 then 0 else pre.length + 1) ∧
      (pre.length ≠ 63 → wb'.buf.toList.take wb'.offset = pre ++ [b]) := by
  have htake : (wb.buf.patch wb.offset [b]).toList.take (wb.offset + 1) = pre ++ [b] := by
    rw [← hbuf]
    exact wb.buf.take_patch wb.offset [b] (by simp only [List.length_singleton]; omega)
  have hne : wb.offset ≠ 0 := by omega
  by_cases h63 : pre.length = 63
  · have hfull : wb.buf.patch wb.offset [b] = Bytes.ofList 64 (pre ++ [b]) := by
      refine Bytes.ext_toList ?_
      rw [Bytes.toList_ofList_of_length (by simp [h63]), ← htake, hoff, h63]
      exact (List.take_of_length_le (by simp)).symm
    have hlast : wb.offset + 1 = hidMessageSize := by rw [hoff, h63]; rfl
    have heq : wb.putByte b =
        ({ wb with
            buf := Bytes.ofList 64 (pre ++ [b])
            offset := 0
            bytesWritten := wb.bytesWritten + 1 }, [Bytes.ofList 64 (pre ++ [b])]) := by
      simp only [WriteBuffer.putByte, hne, if_false, hlast, if_true]
      rw [hfull]
    rw [heq, if_pos h63, if_pos h63]
    exact ⟨_, rfl, rfl, rfl, rfl, rfl, rfl, rfl, fun h => absurd h63 h⟩
  · have hnl : wb.offset + 1 ≠ hidMessageSize := by
      rw [hoff]; show pre.length + 1 ≠ 64; omega
    have heq : wb.putByte b =
        ({ wb with
            buf := wb.buf.patch wb.offset [b]
            offset := wb.offset + 1
            bytesWritten := wb.bytesWritten + 1 }, []) := by
      simp only [WriteBuffer.putByte, hne, if_false, hnl]
    rw [heq, if_neg h63, if_neg h63, ← hoff]
    exact ⟨_, rfl, rfl, rfl, rfl, rfl, rfl, rfl, fun _ => htake⟩

theorem putByte_startInit (wb : WriteBuffer) (b : UInt8) (h : wb.offset = 0)
    (h' : wb.bytesWritten = 0) : wb.putByte b = wb.startInit.putByte b := by
  simp [WriteBuffer.putByte, WriteBuffer.startInit, h, h']

theorem putByte_startCont (wb : WriteBuffer) (b : UInt8) (h : wb.offset = 0)
    (h' : wb.bytesWritten ≠ 0) : wb.putByte b = wb.startCont.putByte b := by
  simp [WriteBuffer.putByte, WriteBuffer.startCont, h, h']

theorem startInit_take (wb : WriteBuffer) (h : wb.offset = 0) :
    wb.startInit.buf.toList.take wb.startInit.offset
      = le32 wb.cid ++ [wb.cmd, UInt8.ofNat (wb.bcnt.toNat / 256), UInt8.ofNat wb.bcnt.toNat] := by
  have h4 : (wb.buf.patch 0 (le32 wb.cid)).toList.take 4 = le32 wb.cid := by
    simpa using wb.buf.take_patch 0 (le32 wb.cid) (by simp)
  have h7 := (wb.buf.patch 0 (le32 wb.cid)).take_patch 4
    [wb.cmd, UInt8.ofNat (wb.bcnt.toNat / 256), UInt8.ofNat wb.bcnt.toNat] (by simp)
  rw [h4] at h7
  simpa [WriteBuffer.startInit, h] using h7

theorem startCont_take (wb : WriteBuffer) (h : wb.offset = 0) :
    wb.startCont.buf.toList.take wb.startCont.offset = le32 wb.cid ++ [wb.seq] := by
  have h4 : (wb.buf.patch 0 (le32 wb.cid)).toList.take 4 = le32 wb.cid := by
    simpa using wb.buf.take_patch 0 (le32 wb.cid) (by simp)
  have h5 := (wb.buf.patch 0 (le32 wb.cid)).take_patch 4 [wb.seq] (by simp)
  rw [h4] at h5
  simpa [WriteBuffer.startCont, h] using h5

theorem Writing.putByte {d : List UInt8} {wb : WriteBuffer} {sent : List Packet}
    (h : Writing cid cmd bcnt d wb sent) (b : UInt8) :
    Writing cid cmd bcnt (d ++ [b]) (wb.putByte b).1 (sent ++ (wb.putByte b).2) := by
  cases h with
  | start hcid hcmd hbcnt hoff hbw hseq =>
    have hpre := startInit_take wb hoff
    obtain ⟨wb', heq, h1, h2, h3, h4, h5, h6, h7⟩ :=
      putByte_started wb.startInit b (by simp [WriteBuffer.startInit, hoff]) (by simp) (by simp) hpre
    rw [putByte_startInit wb b hoff hbw, heq]
    refine .first (h1.trans hcid) (h2.trans hcmd) (h3.trans hbcnt) (by simp) (by simp) h6 ?_
      (h4.trans hseq) ?_
    · rw [h5]; simp [WriteBuffer.startInit, hbw]
    · rw [h7 (by simp), hcid, hcmd, hbcnt]; simp
  | first hcid hcmd hbcnt hne hlt hoff hbw hseq hbuf =>
    obtain ⟨wb', heq, h1, h2, h3, h4, h5, h6, h7⟩ :=
      putByte_started wb b (by rw [hoff]; simp; omega) (by simp only [List.length_append, List.length_cons]; omega)
        (by simp; omega) hbuf
    simp only [List.length_append, length_le32, List.length_cons, List.length_nil] at heq h6 h7
    rw [heq]
    by_cases h56 : d.length = 56
    · rw [if_pos (by omega)]
      have hrep : [Bytes.ofList 64 (le32 cid ++ [cmd, UInt8.ofNat (bcnt.toNat / 256),
          UInt8.ofNat bcnt.toNat] ++ d ++ [b])] = reports cid cmd bcnt (d ++ [b]) := by
        rw [reports, List.take_of_length_le (by simp; omega), List.drop_eq_nil_of_le (by simp; omega),
          contReports_nil, initReport]
        simp
      rw [List.nil_append, hrep]
      refine .between (k := 0) (h1.trans hcid) (h2.trans hcmd) (h3.trans hbcnt) (by simp [h56]) ?_ ?_
        (h4.trans hseq)
      · rw [h6, if_pos (by omega)]
      · rw [h5, hbw]; simp
    · rw [if_neg (by omega)]
      refine .first (h1.trans hcid) (h2.trans hcmd) (h3.trans hbcnt) (by simp) (by simp; omega) ?_ ?_
        (h4.trans hseq) ?_
      · rw [h6, if_neg (by omega)]; simp; omega
      · rw [h5, hbw]; simp
      · rw [h7 (by omega)]; simp
  | @between _ _ k hcid hcmd hbcnt hlen hoff hbw hseq =>
    have hpre := startCont_take wb hoff
    obtain ⟨wb', heq, h1, h2, h3, h4, h5, h6, h7⟩ :=
      putByte_started wb.startCont b (by simp [WriteBuffer.startCont, hoff]) (by simp) (by simp) hpre
    rw [putByte_startCont wb b hoff (by omega), heq]
    simp only [List.append_nil, List.length_append, length_le32, List.length_cons, List.length_nil,
      show ¬ (4 + (0 + 1) = 63) by omega, if_false]
    refine .cont (h1.trans hcid) (h2.trans hcmd) (h3.trans hbcnt) hlen (by simp) (by simp) h6 ?_ ?_ ?_
    · rw [h5]; simp [WriteBuffer.startCont, hbw]
    · rw [h4]
      show wb.seq + 1 = _
      rw [hseq]; simp
    · rw [h7 (by simp), hcid, hseq]
  | @cont _ d p k hcid hcmd hbcnt hlen hne hlt hoff hbw hseq hbuf =>
    obtain ⟨wb', heq, h1, h2, h3, h4, h5, h6, h7⟩ :=
      putByte_started wb b (by rw [hoff]; simp; omega) (by simp only [List.length_append, List.length_cons]; omega)
        (by simp; omega) hbuf
    simp only [List.length_append, length_le32, List.length_cons, List.length_nil] at heq h6 h7 hbw
    rw [heq, List.append_assoc]
    by_cases h58 : p.length = 58
    · rw [if_pos (by omega)]
      have hrep : reports cid cmd bcnt d ++ [Bytes.ofList 64 (le32 cid ++ [UInt8.ofNat k] ++ p ++ [b])]
          = reports cid cmd bcnt (d ++ (p ++ [b])) := by
        rw [reports_append cid cmd bcnt hlen (by simp) (by simp; omega), contReport]
        simp
      rw [hrep]
      refine .between (k := k + 1) (h1.trans hcid) (h2.trans hcmd) (h3.trans hbcnt)
        (by simp; omega) ?_ ?_ (h4.trans hseq)
      · rw [h6, if_pos (by omega)]
      · rw [h5, hbw]; simp; omega
    · rw [if_neg (by omega), List.append_nil]
      refine .cont (h1.trans hcid) (h2.trans hcmd) (h3.trans hbcnt) hlen (by simp) (by simp; omega)
        ?_ ?_ (h4.trans hseq) ?_
      · rw [h6, if_neg (by omega)]; simp; omega
      · rw [h5, hbw]; simp; omega
      · rw [h7 (by omega)]; simp

theorem Writing.putBytes {d : List UInt8} {wb : WriteBuffer} {sent : List Packet}
    (h : Writing cid cmd bcnt d wb sent) (bs : List UInt8) :
    Writing cid cmd bcnt (d ++ bs) (wb.putBytes bs).1 (sent ++ (wb.putBytes bs).2) := by
  induction bs generalizing d wb sent with
  | nil => simpa [WriteBuffer.putBytes] using h
  | cons b bs ih => simpa [WriteBuffer.putBytes] using ih (h.putByte b)

/-- The padded rest of a report that is under way. -/
theorem flush_started (wb : WriteBuffer) {pre : List UInt8} (hoff : wb.offset = pre.length)
    (hpos : 0 < pre.length) (hlt : pre.length < 64)
    (hbuf : wb.buf.toList.take wb.offset = pre) : wb.flush.2 = [Bytes.ofList 64 pre] := by
  have hfull : wb.buf.patch wb.offset (List.replicate (hidMessageSize - wb.offset) 0)
      = Bytes.ofList 64 pre := by
    have hlen : (List.replicate (hidMessageSize - wb.offset) (0 : UInt8)).length
        = 64 - pre.length := by rw [List.length_replicate, hoff]; rfl
    have hrest : wb.buf.toList.drop (wb.offset + (64 - pre.length)) = [] :=
      List.drop_eq_nil_of_le (by simp only [List.Vector.toList_length]; omega)
    refine Bytes.ext_toList ?_
    rw [Bytes.toList_ofList_of_le (by omega), Bytes.toList_patch_of_le _ _ _ (by omega), hbuf, hlen,
      hrest, List.append_nil, hoff]
    rfl
  have h0 : ¬ (wb.offset = 0 ∧ wb.bytesWritten = 0) := by omega
  have hp : 0 < wb.offset := by omega
  simp only [WriteBuffer.flush, h0, if_false, hp, if_true, hfull]

theorem Writing.flush {d : List UInt8} {wb : WriteBuffer} {sent : List Packet}
    (h : Writing cid cmd bcnt d wb sent) (hd : d ≠ []) :
    sent ++ wb.flush.2 = reports cid cmd bcnt d := by
  cases h with
  | start => exact absurd rfl hd
  | first hcid hcmd hbcnt hne hlt hoff hbw hseq hbuf =>
    rw [flush_started wb (by rw [hoff]; simp; omega) (by simp only [List.length_append, List.length_cons]; omega)
        (by simp; omega) hbuf, reports,
      List.take_of_length_le (by omega), List.drop_eq_nil_of_le (by omega), contReports_nil]
    rfl
  | between hcid hcmd hbcnt hlen hoff hbw hseq =>
    have h0 : ¬ (wb.offset = 0 ∧ wb.bytesWritten = 0) := by omega
    have hp : ¬ 0 < wb.offset := by omega
    simp only [WriteBuffer.flush, h0, if_false, hp, List.append_nil]
  | cont hcid hcmd hbcnt hlen hne hlt hoff hbw hseq hbuf =>
    rw [flush_started wb (by rw [hoff]; simp; omega) (by simp only [List.length_append, List.length_cons]; omega)
        (by simp; omega) hbuf,
      reports_append cid cmd bcnt hlen hne (by omega)]
    rfl

theorem Writing.writes {d : List UInt8} {wb : WriteBuffer} {sent : List Packet}
    (h : Writing cid cmd bcnt d wb sent) (pieces : List (List UInt8))
    (hd : d ++ pieces.flatten ≠ []) :
    sent ++ (wb.writes (pieces.map some ++ [none])).2
      = reports cid cmd bcnt (d ++ pieces.flatten) := by
  induction pieces generalizing d wb sent with
  | nil =>
    simp only [List.flatten_nil, List.append_nil] at hd ⊢
    simpa [WriteBuffer.writes, WriteBuffer.ctaphidWrite] using h.flush hd
  | cons p ps ih =>
    have hp := ih (h.putBytes p) (by simpa using hd)
    simpa [WriteBuffer.writes, WriteBuffer.ctaphidWrite] using hp

/-- However a non-empty payload is split over the calls, the reports are those of the payload. -/
theorem sendMessage_eq_reports (pieces : List (List UInt8)) (h : pieces.flatten ≠ []) :
    sendMessage cid cmd bcnt pieces = reports cid cmd bcnt pieces.flatten := by
  have h0 : Writing cid cmd bcnt [] { cid, cmd, bcnt } [] := .start rfl rfl rfl rfl rfl rfl
  simpa [sendMessage] using h0.writes pieces (by simpa using h)

end Writer

/-! ## The reports as the receiver reads them -/

section Fields

variable (cid : UInt32) (cmd seq : UInt8) (bcnt : UInt16) {p : List UInt8}

theorem initReport_toList (hp : p.length ≤ 57) :
    (initReport cid cmd bcnt p).toList
      = le32 cid ++ [cmd, UInt8.ofNat (bcnt.toNat / 256), UInt8.ofNat bcnt.toNat] ++ p
        ++ List.replicate (57 - p.length) 0 := by
  rw [initReport, Bytes.toList_ofList_of_le (by simp; omega)]
  congr 2
  simp
  omega

theorem contReport_toList (hp : p.length ≤ 59) :
    (contReport cid seq p).toList
      = le32 cid ++ [seq] ++ p ++ List.replicate (59 - p.length) 0 := by
  rw [contReport, Bytes.toList_ofList_of_le (by simp; omega)]
  congr 2
  simp
  omega

theorem initReport_cid (hp : p.length ≤ 57) : (initReport cid cmd bcnt p).cid = cid := by
  rw [Packet.cid, initReport_toList cid cmd bcnt hp]
  simp only [List.append_assoc, ofLe32_le32]

theorem initReport_cmd (hp : p.length ≤ 57) : (initReport cid cmd bcnt p).cmd = cmd := by
  rw [Packet.cmd, Bytes.byte, initReport_toList cid cmd bcnt hp]
  rfl

theorem initReport_len (hp : p.length ≤ 57) : (initReport cid cmd bcnt p).len = bcnt := by
  have hb := bcnt.toNat_lt
  rw [Packet.len, Bytes.byte, Bytes.byte, initReport_toList cid cmd bcnt hp]
  apply UInt16.toNat_inj.mp
  simp only [le32, List.cons_append, List.nil_append, List.getD_cons_succ, List.getD_cons_zero,
    UInt8.toNat_ofNat', UInt16.toNat_ofNat']
  omega

theorem initReport_payload (hp : p.length ≤ 57) :
    (initReport cid cmd bcnt p).initPayload.take p.length = p := by
  rw [Packet.initPayload, initReport_toList cid cmd bcnt hp]
  simp [le32]

theorem contReport_cid (hp : p.length ≤ 59) : (contReport cid seq p).cid = cid := by
  rw [Packet.cid, contReport_toList cid seq hp]
  simp only [List.append_assoc, ofLe32_le32]

theorem contReport_seq (hp : p.length ≤ 59) : (contReport cid seq p).seq = seq := by
  rw [Packet.seq, Bytes.byte, contReport_toList cid seq hp]
  rfl

theorem contReport_payload (hp : p.length ≤ 59) :
    (contReport cid seq p).contPayload.take p.length = p := by
  rw [Packet.contPayload, contReport_toList cid seq hp]
  simp [le32]

end Fields

theorem contReports_cid (cid : UInt32) (k : Nat) (l : List UInt8) :
    ∀ p ∈ contReports cid k l, p.cid = cid := by
  induction k, l using contReports.induct with
  | case1 k => simp
  | case2 k l hl ih =>
    intro p hp
    rw [contReports_cons cid k hl] at hp
    rcases List.mem_cons.mp hp with rfl | hp
    · exact contReport_cid cid _ (by simp)
    · exact ih p hp

/-! ## The receiver -/

section Receiver

variable {version : UInt8 × UInt8 × UInt8} {cid : UInt32} {cmd : UInt8} {payload : List UInt8}

theorem take_min_length {α : Type} (m : Nat) (l : List α) : l.take (min m l.length) = l.take m := by
  rw [← List.take_take, List.take_length]

/-- Sequence numbers below 128 do not set `TYPE_INIT`. -/
theorem seq_and_typeInit : ∀ k < 128, UInt8.ofNat k &&& typeInit = 0 := by decide

/-- The buffer after the first `n` bytes of a message whose last packet was number `k - 1`. -/
structure Receiving (cid : UInt32) (cmd : UInt8) (payload : List UInt8) (n k : Nat) (b : Buffer) :
    Prop where
  cid_eq : b.cid = cid
  cmd_eq : b.cmd = cmd
  bcnt_eq : b.bcnt.toNat = payload.length
  offset_eq : b.offset = n
  seq_eq : b.packetSeq = (k : Int) - 1
  data_eq : b.data.toList.take n = payload.take n

theorem Receiving.status_eq {n k : Nat} {b : Buffer} (h : Receiving cid cmd payload n k b)
    (hpos : payload ≠ []) :
    b.status = if n = payload.length then .buffered else .buffering := by
  have h0 : b.bcnt ≠ 0 := by
    intro h0
    have hlen := h.bcnt_eq
    rw [h0] at hlen
    exact hpos (List.length_eq_zero_iff.mp hlen.symm)
  rw [Buffer.status, if_neg h0, h.offset_eq, h.bcnt_eq]

/-- The first report opens the message. -/
theorem packet_initReport (cid : UInt32) (b : Buffer) (hcmd : cmd &&& typeInit ≠ 0)
    (hlen : payload.length ≤ 1344) :
    ∃ b', b.packet (initReport cid cmd (UInt16.ofNat payload.length) (payload.take 57)) = (false, b')
      ∧ Receiving cid cmd payload (min 57 payload.length) 0 b' := by
  have hp : (payload.take 57).length ≤ 57 := by simp
  have hb : (UInt16.ofNat payload.length).toNat = payload.length := by
    rw [UInt16.toNat_ofNat']; omega
  have hpl := initReport_payload cid cmd (UInt16.ofNat payload.length) hp
  refine ⟨_, by rw [Buffer.packet, if_pos (by rwa [initReport_cmd _ _ _ hp])], ?_⟩
  have hmin : min (UInt16.ofNat payload.length).toNat ctaphidInitPayloadSize
      = (payload.take 57).length := by
    rw [hb, List.length_take, Nat.min_comm]; rfl
  simp only [initReport_cid _ _ _ hp, initReport_cmd _ _ _ hp, initReport_len _ _ _ hp, hmin, hpl]
  have htake := b.data.take_patch 0 (payload.take 57) (by simp)
  refine ⟨rfl, rfl, hb, by simp, by simp, ?_⟩
  rw [take_min_length]
  simpa using htake

/-- The next continuation report extends the message. -/
theorem Receiving.packet_contReport {n k : Nat} {b : Buffer} (h : Receiving cid cmd payload n k b)
    (hn : n < payload.length) (hlen : payload.length ≤ 1344) (hk : k < 128) :
    ∃ b', b.packet (contReport cid (UInt8.ofNat k) ((payload.drop n).take 59)) = (false, b') ∧
      Receiving cid cmd payload (min (n + 59) payload.length) (k + 1) b' := by
  have hp : ((payload.drop n).take 59).length ≤ 59 := by simp
  have hpl := contReport_payload cid (UInt8.ofNat k) hp
  have hseq := contReport_seq cid (UInt8.ofNat k) hp
  have hcmd : (contReport cid (UInt8.ofNat k) ((payload.drop n).take 59)).cmd = UInt8.ofNat k := hseq
  have hk8 : (UInt8.ofNat k).toNat = k := by rw [UInt8.toNat_ofNat']; omega
  have hcont : ¬ (UInt8.ofNat k &&& typeInit ≠ 0) := by
    rw [seq_and_typeInit k hk]; simp
  have hleft : (if b.bcnt.toNat - n ≤ ctaphidContPayloadSize then b.bcnt.toNat - n
      else ctaphidContPayloadSize) = ((payload.drop n).take 59).length := by
    rw [h.bcnt_eq, List.length_take, List.length_drop]
    show (if payload.length - n ≤ 59 then payload.length - n else 59) = _
    split <;> omega
  have hstep : b.packet (contReport cid (UInt8.ofNat k) ((payload.drop n).take 59)) =
      (false, { b with
        data := b.data.patch n ((payload.drop n).take 59)
        offset := n + ((payload.drop n).take 59).length
        packetSeq := (k : Int) }) := by
    rw [Buffer.packet, hcmd, if_neg hcont, if_neg (by rw [h.bcnt_eq, h.offset_eq]; omega)]
    simp only [hseq, hk8, h.seq_eq, h.offset_eq, hleft, hpl]
    simp
  refine ⟨_, hstep, h.cid_eq, h.cmd_eq, h.bcnt_eq, ?_, by simp, ?_⟩
  · simp only [List.length_take, List.length_drop]; omega
  · have htake := b.data.take_patch n ((payload.drop n).take 59) (by simp; omega)
    have hmin : min (n + 59) payload.length = n + ((payload.drop n).take 59).length := by
      simp only [List.length_take, List.length_drop]; omega
    have hdata : payload.take (min (n + 59) payload.length)
        = payload.take n ++ (payload.drop n).take 59 := by
      rw [take_min_length, List.take_add]
    rw [hdata, hmin, htake, h.data_eq]

theorem updateFirst_of_any {p : Cid → Bool} {f : Cid → Cid} (hf : ∀ c, p c → p (f c))
    {cids : List Cid} (h : cids.any p) :
    ∃ cids', updateFirst p f cids = some cids' ∧ cids'.any p := by
  induction cids with
  | nil => simp at h
  | cons c cs ih =>
    by_cases hc : p c
    · exact ⟨f c :: cs, by simp [updateFirst, hc], by simp [hf c hc]⟩
    · obtain ⟨cs', h1, h2⟩ := ih (by simpa [hc] using h)
      exact ⟨c :: cs', by simp [updateFirst, hc, h1], by simp [h2]⟩

theorem cidRefresh_of_exists {l : Layer} {cid : UInt32} (h : cidExists l.cids cid) :
    ∃ s, l.cidRefresh cid = (true, s) ∧ s.buffer = l.buffer ∧ cidExists s.cids cid := by
  obtain ⟨cids', h1, h2⟩ := updateFirst_of_any (p := (·.cid == cid))
    (f := fun c => { c with lastUsed := l.millis.1.toUInt64, busy := true }) (fun _ hc => hc) h
  have heq : l.cidRefresh cid = (true, { l.millis.2 with cids := cids' }) := by
    rw [Layer.cidRefresh, h1]
  exact ⟨_, heq, rfl, h2⟩

theorem acceptPacket_of_packet {l : Layer} {pkt : Packet} {b' : Buffer}
    (hb : l.buffer.packet pkt = (false, b')) (h : cidExists l.cids pkt.cid) :
    ∃ s, acceptPacket l pkt = some (⟨b'.status, pkt.cid, b'.cmd, b'.bcnt⟩, s) ∧ s.buffer = b' ∧
      cidExists s.cids pkt.cid := by
  obtain ⟨s, h1, h2, h3⟩ := cidRefresh_of_exists (l := { l with buffer := b' }) h
  refine ⟨s, ?_, h2, h3⟩
  rw [acceptPacket, hb]
  simp only [h1, h2, Bool.false_eq_true, if_false, if_true]

/-- While a message is under way, a packet of another channel leaves the whole layer alone. -/
theorem foreign_packet (version : UInt8 × UInt8 × UInt8) {l : Layer} {pkt : Packet} (hst : l.buffer.status = .buffering)
    (hcid : pkt.cid ≠ l.buffer.cid) (hinit : pkt.isInitPkt = false) :
    ∃ r, ctaphidBufferPacket version l pkt = some (r, l) := by
  have hadd : enterChannel l pkt = l := by simp [enterChannel, hst]
  simp only [ctaphidBufferPacket, hinit, hadd, routePacket, Bool.false_eq_true, if_false]
  split_ifs with h1 h2 h3 h4
  all_goals first | exact ⟨_, rfl⟩ | exact absurd ⟨hst, hcid⟩ h4

theorem addCid_buffer (l : Layer) (cid : UInt32) : (l.addCid cid).2.buffer = l.buffer := by
  rw [Layer.addCid]; split <;> rfl

theorem enterChannel_buffer (l : Layer) (pkt : Packet) : (enterChannel l pkt).buffer = l.buffer := by
  unfold enterChannel
  split_ifs
  · exact addCid_buffer l pkt.cid
  · rfl

/-- A `CTAPHID_INIT` packet is never buffered. -/
theorem bufferInitPacket_status (version : UInt8 × UInt8 × UInt8) (l : Layer) (pkt : Packet) :
    (bufferInitPacket version l pkt).1.status = .hidError ∨
      (bufferInitPacket version l pkt).1.status = .hidIgnore := by
  have hreply : ∀ newcid r, (replyInit version pkt newcid r).1.status = .hidError ∨
      (replyInit version pkt newcid r).1.status = .hidIgnore := by
    intro newcid r
    unfold replyInit
    split_ifs <;> simp
  unfold bufferInitPacket
  split_ifs <;> simp [hreply]

/-- What an accepted first packet did: its channel is in the table and the buffer took it. -/
theorem accepted_first {l s : Layer} {pkt : Packet} {r : Received}
    (hempty : l.buffer.status = .empty) (h : ctaphidBufferPacket version l pkt = some (r, s))
    (hr : r.status = .buffering ∨ r.status = .buffered) :
    pkt.isContPkt = false ∧ pkt.isInitPkt = false ∧ pkt.cid ≠ ctaphidBroadcastCid ∧ ∃ l',
      l'.buffer = l.buffer ∧ cidExists l'.cids pkt.cid ∧ acceptPacket l' pkt = some (r, s) := by
  by_cases hinit : pkt.isInitPkt
  · rw [ctaphidBufferPacket, if_pos hinit, Option.some.injEq] at h
    have hs := bufferInitPacket_status version l pkt
    rw [h] at hs
    rcases hr with hr | hr <;> simp [hr] at hs
  rw [ctaphidBufferPacket, if_neg hinit] at h
  have hbuf := enterChannel_buffer l pkt
  simp only [routePacket, hbuf, hempty] at h
  split_ifs at h with h1 h2 h3 h4 h5 h6 h7 h8
  all_goals first
    | exact ⟨by simpa using h6, by simpa using hinit, h1, enterChannel l pkt, hbuf, h2, h⟩
    | (simp only [Option.some.injEq, Prod.mk.injEq] at h; rw [← h.1] at hr; simp at hr)
    | simp at *

/-- A packet of the open message's own channel is refused only for its sequence number. -/
theorem own_cont_packet (version : UInt8 × UInt8 × UInt8) {l : Layer} {pkt : Packet} (hst : l.buffer.status = .buffering)
    (hcid : pkt.cid = l.buffer.cid) (hcont : pkt.isContPkt = true) (hb : pkt.cid ≠ ctaphidBroadcastCid)
    (he : cidExists l.cids pkt.cid) :
    ctaphidBufferPacket version l pkt = acceptPacket l pkt := by
  have hinit : pkt.isInitPkt = false := by
    simp only [Packet.isInitPkt, Packet.isContPkt, beq_iff_eq, beq_eq_false_iff_ne] at hcont ⊢
    intro h
    rw [h] at hcont
    exact absurd hcont (by decide)
  have hadd : enterChannel l pkt = l := by simp [enterChannel, he]
  simp [ctaphidBufferPacket, hinit, hb, hadd, routePacket, he, hst, ← hcid, hcont]

/-- `ctaphid_buffer_packet` on one packet after the other. -/
def receive (version : UInt8 × UInt8 × UInt8) (l : Layer) : List Packet → Option Layer
  | [] => some l
  | pkt :: pkts => (ctaphidBufferPacket version l pkt).bind fun r => receive version r.2 pkts

/-- A packet stream in which one channel sends exactly `pkts`, its first and last packet first and
last, and the other channels send anything but `CTAPHID_INIT`. -/
structure Interleaving (cid : UInt32) (pkts stream : List Packet) : Prop where
  own : stream.filter (·.cid == cid) = pkts
  foreign : ∀ p ∈ stream, p.cid ≠ cid → p.isInitPkt = false
  head_own : ∀ p ∈ stream.head?, p.cid = cid
  last_own : ∀ p ∈ stream.getLast?, p.cid = cid

/-- What the caller sees of one packet of the stream: the layer before it, the verdict on it, and
whether packets follow. -/
structure Step (cid : UInt32) (cmd : UInt8) (payload : List UInt8) (pkt : Packet)
    (last : Bool) (s : Layer) (r : Received) (s' : Layer) : Prop where
  own : pkt.cid = cid → r = ⟨if last then .buffered else .buffering, cid, cmd,
    UInt16.ofNat payload.length⟩
  complete : last → s'.buffer.cid = cid ∧ s'.buffer.cmd = cmd ∧
    s'.buffer.bcnt.toNat = payload.length ∧
    s'.buffer.data.toList.take s'.buffer.bcnt.toNat = payload
  foreign : pkt.cid ≠ cid → s'.buffer = s.buffer

/-- Every packet of a stream from `s` on is a `Step`. -/
def Steps (version : UInt8 × UInt8 × UInt8) (cid : UInt32) (cmd : UInt8) (payload : List UInt8)
    (s : Layer) (stream : List Packet) : Prop :=
  ∀ pre pkt post, stream = pre ++ pkt :: post → ∃ s₁ r s₂, receive version s pre = some s₁ ∧
    ctaphidBufferPacket version s₁ pkt = some (r, s₂) ∧
    Step cid cmd payload pkt post.isEmpty s₁ r s₂

theorem Steps.nil {s : Layer} : Steps version cid cmd payload s [] := by
  intro pre pkt post h
  simp at h

theorem Steps.cons {s s' : Layer} {pkt : Packet} {pkts : List Packet} {r : Received}
    (h : ctaphidBufferPacket version s pkt = some (r, s'))
    (hstep : Step cid cmd payload pkt pkts.isEmpty s r s')
    (hrest : Steps version cid cmd payload s' pkts) :
    Steps version cid cmd payload s (pkt :: pkts) := by
  intro pre p post heq
  cases pre with
  | nil =>
    obtain ⟨rfl, rfl⟩ : pkt = p ∧ pkts = post := by simpa using heq
    exact ⟨s, r, s', rfl, h, hstep⟩
  | cons q pre =>
    obtain ⟨rfl, rfl⟩ : pkt = q ∧ pkts = pre ++ p :: post := by simpa using heq
    obtain ⟨s₁, r', s₂, h1, h2, h3⟩ := hrest pre p post rfl
    exact ⟨s₁, r', s₂, by simpa [receive, h] using h1, h2, h3⟩

theorem getLast?_cons_own {p q : Packet} {pkts : List Packet}
    (h : ∀ x ∈ (p :: q :: pkts).getLast?, x.cid = cid) :
    ∀ x ∈ (q :: pkts).getLast?, x.cid = cid := by
  simpa [List.getLast?_cons_cons] using h

/-- When the channel has nothing more to send, the stream has ended. -/
theorem eq_nil_of_no_own {stream : List Packet} (hown : stream.filter (·.cid == cid) = [])
    (hlast : ∀ p ∈ stream.getLast?, p.cid = cid) : stream = [] := by
  by_contra hne
  have hmem := List.getLast_mem hne
  have hcid := hlast _ (List.getLast?_eq_some_getLast hne)
  exact (List.filter_eq_nil_iff.mp hown _ hmem) (by simpa using hcid)

theorem Receiving.complete {k : Nat} {s : Layer}
    (h : Receiving cid cmd payload payload.length k s.buffer) :
    s.buffer.cid = cid ∧ s.buffer.cmd = cmd ∧ s.buffer.bcnt.toNat = payload.length ∧
      s.buffer.data.toList.take s.buffer.bcnt.toNat = payload := by
  refine ⟨h.cid_eq, h.cmd_eq, h.bcnt_eq, ?_⟩
  rw [h.bcnt_eq, h.data_eq, List.take_length]

theorem ofNat_length_of_bcnt {b : UInt16} (h : b.toNat = payload.length) :
    b = UInt16.ofNat payload.length := by
  rw [← h]; simp

/-- The verdict on an own packet after which `n` bytes of the message are there. -/
theorem Receiving.step {n k : Nat} {s s' : Layer} {pkt : Packet} {last : Bool}
    (h : Receiving cid cmd payload n k s'.buffer) (hne : payload ≠ []) (hcid : pkt.cid = cid)
    (hlast : last = true ↔ n = payload.length) :
    Step cid cmd payload pkt last s
      ⟨s'.buffer.status, pkt.cid, s'.buffer.cmd, s'.buffer.bcnt⟩ s' := by
  refine ⟨fun _ => ?_, fun hl => ?_, fun hf => absurd hcid hf⟩
  · rw [h.status_eq hne, hcid, h.cmd_eq, ofNat_length_of_bcnt h.bcnt_eq]
    simp only [hlast]
  · rw [hlast.mp hl] at h
    exact h.complete

/-- From an open message on: the rest of the stream completes it.  The induction is on the stream;
own packets move the message on by one report, foreign packets leave the layer alone. -/
theorem receiving_steps (hlen : payload.length ≤ 1344) (hb : cid ≠ ctaphidBroadcastCid) :
    ∀ (stream : List Packet) (s : Layer) (k : Nat),
      Receiving cid cmd payload (57 + 59 * k) k s.buffer → 57 + 59 * k < payload.length →
      cidExists s.cids cid → stream.filter (·.cid == cid)
        = contReports cid k (payload.drop (57 + 59 * k)) →
      (∀ p ∈ stream, p.cid ≠ cid → p.isInitPkt = false) →
      (∀ p ∈ stream.getLast?, p.cid = cid) → Steps version cid cmd payload s stream := by
  intro stream
  induction stream with
  | nil => intro s k _ _ _ _ _ _; exact Steps.nil
  | cons pkt pkts ih =>
    intro s k hrec hn he hown hfor hlast
    have hne : payload ≠ [] := List.ne_nil_of_length_pos (by omega)
    have hst : s.buffer.status = .buffering := by
      rw [hrec.status_eq hne, if_neg (by omega)]
    have hrestlast : ∀ p ∈ pkts.getLast?, p.cid = cid := by
      cases pkts with
      | nil => simp
      | cons q qs => exact getLast?_cons_own hlast
    by_cases hcid : pkt.cid = cid
    · -- the next continuation report
      have hdrop : payload.drop (57 + 59 * k) ≠ [] :=
        List.ne_nil_of_length_pos (by rw [List.length_drop]; omega)
      rw [List.filter_cons_of_pos (by simp [hcid]), contReports_cons cid k hdrop] at hown
      obtain ⟨rfl, hrest⟩ := List.cons_eq_cons.mp hown
      obtain ⟨b', hpkt, hrec'⟩ := hrec.packet_contReport hn hlen (by omega)
      obtain ⟨s', hacc, hs', he'⟩ := acceptPacket_of_packet hpkt (by rw [hcid]; exact he)
      have hcont : (contReport cid (UInt8.ofNat k)
          ((payload.drop (57 + 59 * k)).take 59)).isContPkt = true := by
        have hseq := contReport_seq cid (UInt8.ofNat k)
          (p := (payload.drop (57 + 59 * k)).take 59) (by simp)
        simp only [Packet.isContPkt, Packet.cmd, Packet.seq, beq_iff_eq] at hseq ⊢
        rw [hseq, seq_and_typeInit k (by omega)]
      have hstep := (own_cont_packet version hst (hcid.trans hrec.cid_eq.symm) hcont
        (by rwa [hcid]) (by rwa [hcid])).trans hacc
      rw [hcid] at he'
      rw [← hs'] at hrec' hstep
      by_cases hmore : 57 + 59 * (k + 1) < payload.length
      · have hmin : min (57 + 59 * k + 59) payload.length = 57 + 59 * (k + 1) := by omega
        rw [List.drop_drop, show 57 + 59 * k + 59 = 57 + 59 * (k + 1) by omega] at hrest
        rw [hmin] at hrec'
        have hpkts : pkts ≠ [] := by
          rintro rfl
          rw [contReports_cons _ _ (List.ne_nil_of_length_pos (by rw [List.length_drop]; omega))]
            at hrest
          simp at hrest
        refine Steps.cons hstep (hrec'.step hne hcid ?_)
          (ih s' (k + 1) hrec' hmore he' hrest (fun p hp => hfor p (by simp [hp])) hrestlast)
        simp only [List.isEmpty_iff, hpkts, false_iff]
        omega
      · rw [min_eq_right (by omega)] at hrec'
        rw [List.drop_drop, List.drop_eq_nil_of_le (by omega), contReports_nil] at hrest
        obtain rfl := eq_nil_of_no_own hrest hrestlast
        exact Steps.cons hstep (hrec'.step hne hcid (by simp)) Steps.nil
    · -- a packet of another channel
      obtain ⟨r, hr⟩ := foreign_packet version hst (by rwa [hrec.cid_eq])
        (hfor pkt (by simp) hcid)
      refine Steps.cons hr ⟨fun h => absurd h hcid, ?_, fun _ => rfl⟩ ?_
      · intro hl
        obtain rfl : pkts = [] := by simpa using hl
        exact absurd (hlast pkt (by simp)) hcid
      · refine ih s k hrec hn he ?_ (fun p hp => hfor p (by simp [hp])) hrestlast
        rwa [List.filter_cons_of_neg (by simpa using hcid)] at hown

/-- **Reassembly.**  However a payload of 1 to 1344 bytes is split over the `ctaphid_write` calls,
its reports, once the first is accepted on an empty buffer, come back as the same message, whatever
the other channels send in between. -/
theorem ctaphid_buffer_packet_reassembles (pieces : List (List UInt8)) {stream : List Packet}
    {l : Layer} (hpos : 1 ≤ pieces.flatten.length) (hlen : pieces.flatten.length ≤ 1344)
    (hstream : Interleaving cid
      (sendMessage cid cmd (UInt16.ofNat pieces.flatten.length) pieces) stream)
    (hempty : l.buffer.status = .empty)
    (haccept : ∀ p ∈ stream.head?, ∃ r s, ctaphidBufferPacket version l p = some (r, s) ∧
      (r.status = .buffering ∨ r.status = .buffered)) :
    Steps version cid cmd pieces.flatten l stream := by
  have hne : pieces.flatten ≠ [] := List.ne_nil_of_length_pos hpos
  rw [sendMessage_eq_reports pieces hne, reports] at hstream
  generalize pieces.flatten = payload at *
  obtain ⟨hown, hfor, hhead, hlast⟩ := hstream
  cases stream with
  | nil => simp at hown
  | cons pkt pkts =>
    have hcid : pkt.cid = cid := hhead pkt (by simp)
    rw [List.filter_cons_of_pos (by simp [hcid])] at hown
    obtain ⟨rfl, hrest⟩ := List.cons_eq_cons.mp hown
    obtain ⟨r, s, hpkt, hr⟩ := haccept _ rfl
    obtain ⟨hcont, -, hb, l', hl', he, hacc⟩ := accepted_first hempty hpkt hr
    have hcmd : cmd &&& typeInit ≠ 0 := by
      have := initReport_cmd cid cmd (UInt16.ofNat payload.length) (p := payload.take 57) (by simp)
      simpa [Packet.isContPkt, this] using hcont
    obtain ⟨b', hb', hrec⟩ := packet_initReport cid l'.buffer hcmd hlen
    obtain ⟨s', hacc', hs', he'⟩ := acceptPacket_of_packet hb' he
    obtain ⟨rfl, rfl⟩ : _ = r ∧ s' = s := by
      simpa only [Option.some.injEq, Prod.mk.injEq] using hacc'.symm.trans hacc
    rw [← hs'] at hrec hpkt
    rw [hcid] at he' hb
    have hrestlast : ∀ p ∈ pkts.getLast?, p.cid = cid := by
      cases pkts with
      | nil => simp
      | cons q qs => exact getLast?_cons_own hlast
    by_cases hmore : 57 < payload.length
    · have hpkts : pkts ≠ [] := by
        rintro rfl
        rw [contReports_cons _ _ (List.ne_nil_of_length_pos (by rw [List.length_drop]; omega))] at hrest
        simp at hrest
      rw [min_eq_left (by omega)] at hrec
      refine Steps.cons hpkt (hrec.step hne hcid ?_) (receiving_steps hlen hb pkts s' 0 hrec hmore he'
        hrest (fun p hp => hfor p (by simp [hp])) hrestlast)
      simp only [List.isEmpty_iff, hpkts, false_iff]
      omega
    · rw [min_eq_right (by omega)] at hrec
      rw [List.drop_eq_nil_of_le (by omega), contReports_nil] at hrest
      obtain rfl := eq_nil_of_no_own hrest hrestlast
      exact Steps.cons hpkt (hrec.step hne hcid (by simp)) Steps.nil

/-- A message of two reports, written in two pieces, with a packet of channel 3 in between. -/
theorem ctaphid_buffer_packet_reassembles_two_reports :
    Steps (1, 0, 0) 2 0x81 (List.replicate 60 7) {}
      [initReport 2 0x81 60 (List.replicate 57 7), contReport 3 0 [9],
        contReport 2 0 (List.replicate 3 7)] :=
  ctaphid_buffer_packet_reassembles [List.replicate 40 7, List.replicate 20 7] (by decide) (by decide)
    ⟨by decide +kernel, by
      simp only [List.forall_mem_cons]
      exact ⟨by decide +kernel, by decide +kernel, by decide +kernel, nofun⟩,
      by simp; decide +kernel, by simp; decide +kernel⟩ rfl (by
      simp only [List.head?_cons, Option.mem_def, Option.some.injEq, forall_eq']
      exact ⟨⟨.buffering, 2, 0x81, 60⟩, _, rfl, Or.inl rfl⟩)

end Receiver

end TkeyFido2.Hid
