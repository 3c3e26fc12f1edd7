import TkeyFido2.Lib.Bytes

/-!
# The HID transport layer

The reassembly buffer, the channel table and the message writer of `ctaphid.c`.  A received packet
is the 64-byte report itself; the fields of `CTAPHID_PACKET` are read out of it at their offsets.
The readings of the millisecond timer are given in advance, one for each call of `millis`.
-/

namespace TkeyFido2.Hid

def hidMessageSize : Nat := 64
def ctaphidInitPayloadSize : Nat := 57
def ctaphidContPayloadSize : Nat := 59
def ctaphidBufferSize : Nat := 1344
def ctaphidBroadcastCid : UInt32 := 0xffffffff

def typeInit : UInt8 := 0x80
def ctaphidInit : UInt8 := 0x86
def ctaphidProtocolVersion : UInt8 := 2
def ctapCapabilities : UInt8 := 0x05

def ctap1ErrInvalidLength : UInt8 := 0x03
def ctap1ErrInvalidSeq : UInt8 := 0x04
def ctap1ErrChannelBusy : UInt8 := 0x06
def ctap1ErrInvalidChannel : UInt8 := 0x0B

/-- A report of `HID_MESSAGE_SIZE` bytes. -/
abbrev Packet := Bytes 64

namespace Packet

def cid (pkt : Packet) : UInt32 := ofLe32 pkt.toList
def cmd (pkt : Packet) : UInt8 := pkt.byte 4
def seq (pkt : Packet) : UInt8 := pkt.byte 4
def initPayload (pkt : Packet) : List UInt8 := pkt.toList.drop 7
def contPayload (pkt : Packet) : List UInt8 := pkt.toList.drop 5

/-- `ctaphid_packet_len`. -/
def len (pkt : Packet) : UInt16 := UInt16.ofNat ((pkt.byte 5).toNat * 256 + (pkt.byte 6).toNat)

def isBroadcast (pkt : Packet) : Bool := pkt.cid == ctaphidBroadcastCid
def isInitPkt (pkt : Packet) : Bool := pkt.cmd == ctaphidInit
def isContPkt (pkt : Packet) : Bool := pkt.cmd &&& typeInit == 0

end Packet

/-- An entry of the channel table. -/
structure Cid where
  cid : UInt32 := 0
  lastUsed : UInt64 := 0
  busy : Bool := false
  deriving DecidableEq, Repr

inductive BufferStatus
  | empty
  | buffering
  | buffered
  | hidError
  | hidIgnore
  deriving DecidableEq, Repr

/-- The reassembly buffer: the `ctap_buffer*` variables and `ctap_packet_seq`. -/
structure Buffer where
  data : Bytes 1344 := Bytes.zero 1344
  cid : UInt32 := 0
  cmd : UInt8 := 0
  bcnt : UInt16 := 0
  offset : Nat := 0
  packetSeq : Int := 0
  deriving DecidableEq

/-- The static state of `ctaphid.c` that receiving a packet reads or writes. -/
structure Layer where
  /-- The nine entries of `CIDS` that the lookups scan (`CID_MAX - 1`). -/
  cids : List Cid := List.replicate 9 {}
  /-- The static counter of `get_new_cid`. -/
  lastCid : UInt32 := 1
  buffer : Buffer := {}
  /-- Reports handed to `usbhid_send`, oldest first. -/
  sent : List Packet := []
  /-- The readings of `millis` and how many have been taken. -/
  clock : Nat → UInt32 := fun _ => 0
  ticks : Nat := 0

/-! ## The buffer -/

namespace Buffer

def reset (b : Buffer) : Buffer := { b with bcnt := 0, offset := 0, packetSeq := 0, cid := 0 }

def status (b : Buffer) : BufferStatus :=
  if b.bcnt = 0 then .empty else if b.offset = b.bcnt.toNat then .buffered else .buffering

/-- `buffer_packet`; the flag is `SEQUENCE_ERROR`. -/
def packet (b : Buffer) (pkt : Packet) : Bool × Buffer :=
  if pkt.cmd &&& typeInit ≠ 0 then
    let pktLen := min pkt.len.toNat ctaphidInitPayloadSize
    (false, { data := b.data.patch 0 (pkt.initPayload.take pktLen), cid := pkt.cid, cmd := pkt.cmd,
              bcnt := pkt.len, offset := pktLen, packetSeq := -1 })
  else if b.bcnt.toNat < b.offset then (true, b)
  else
    let leftover := b.bcnt.toNat - b.offset
    let seq := b.packetSeq + 1
    if seq ≠ pkt.seq.toNat then (true, { b with packetSeq := seq })
    else
      let n := if leftover ≤ ctaphidContPayloadSize then leftover else ctaphidContPayloadSize
      (false, { b with data := b.data.patch b.offset (pkt.contPayload.take n),
                       offset := b.offset + n, packetSeq := seq })

end Buffer

/-! ## The channel table -/

/-- `get_new_cid`: the next counter value that is neither 0 nor the broadcast channel. -/
def getNewCid (last : UInt32) : UInt32 :=
  if last + 1 = 0 ∨ last + 1 = 0xffffffff then
    if last + 2 = 0 ∨ last + 2 = 0xffffffff then last + 3 else last + 2
  else last + 1

def cidExists (cids : List Cid) (cid : UInt32) : Bool := cids.any (·.cid == cid)

/-- Update the first entry that satisfies `p`, if there is one. -/
def updateFirst (p : Cid → Bool) (f : Cid → Cid) : List Cid → Option (List Cid)
  | [] => none
  | c :: cs => if p c then some (f c :: cs) else (updateFirst p f cs).map (c :: ·)

namespace Layer

def millis (l : Layer) : UInt32 × Layer := (l.clock l.ticks, { l with ticks := l.ticks + 1 })

/-- `add_cid`: take the first free entry; `false` is the C result -1. -/
def addCid (l : Layer) (cid : UInt32) : Bool × Layer :=
  match updateFirst (fun c => !c.busy)
      (fun c => { c with cid := cid, busy := true, lastUsed := l.millis.1.toUInt64 }) l.cids with
  | some cids => (true, { l.millis.2 with cids })
  | none => (false, l)

def cidRefresh (l : Layer) (cid : UInt32) : Bool × Layer :=
  match updateFirst (·.cid == cid)
      (fun c => { c with lastUsed := l.millis.1.toUInt64, busy := true }) l.cids with
  | some cids => (true, { l.millis.2 with cids })
  | none => (false, l)

def cidDel (l : Layer) (cid : UInt32) : Layer :=
  match updateFirst (·.cid == cid) (fun c => { c with busy := false }) l.cids with
  | some cids => { l with cids }
  | none => l

end Layer

/-! ## Writing a message -/

structure WriteBuffer where
  cmd : UInt8 := 0
  cid : UInt32 := 0
  bcnt : UInt16 := 0
  offset : Nat := 0
  bytesWritten : Nat := 0
  seq : UInt8 := 0
  buf : Packet := Bytes.zero 64

namespace WriteBuffer

/-- Header of an initialisation packet: channel, command and length. -/
def startInit (wb : WriteBuffer) : WriteBuffer :=
  { wb with
    buf := (wb.buf.patch 0 (le32 wb.cid)).patch 4
      [wb.cmd, UInt8.ofNat (wb.bcnt.toNat / 256), UInt8.ofNat wb.bcnt.toNat]
    offset := wb.offset + 7 }

/-- Header of a continuation packet: channel and sequence number. -/
def startCont (wb : WriteBuffer) : WriteBuffer :=
  { wb with
    buf := (wb.buf.patch 0 (le32 wb.cid)).patch 4 [wb.seq]
    seq := wb.seq + 1
    offset := wb.offset + 5 }

/-- The loop body of `ctaphid_write`: one byte, and the report it may complete. -/
def putByte (wb : WriteBuffer) (b : UInt8) : WriteBuffer × List Packet :=
  let wb := if wb.offset = 0 then (if wb.bytesWritten = 0 then wb.startInit else wb.startCont)
    else wb
  let wb := { wb with buf := wb.buf.patch wb.offset [b], offset := wb.offset + 1,
                      bytesWritten := wb.bytesWritten + 1 }
  if wb.offset = hidMessageSize then ({ wb with offset := 0 }, [wb.buf]) else (wb, [])

/-- The `for` loop of `ctaphid_write`. -/
def putBytes (wb : WriteBuffer) : List UInt8 → WriteBuffer × List Packet
  | [] => (wb, [])
  | b :: bs =>
    let r := wb.putByte b
    let r' := r.1.putBytes bs
    (r'.1, r.2 ++ r'.2)

/-- The `NULL` branch of `ctaphid_write`: pad and send what is left. -/
def flush (wb : WriteBuffer) : WriteBuffer × List Packet :=
  let wb := if wb.offset = 0 ∧ wb.bytesWritten = 0 then wb.startInit else wb
  if 0 < wb.offset then
    let wb := { wb with buf := wb.buf.patch wb.offset (List.replicate (hidMessageSize - wb.offset) 0) }
    (wb, [wb.buf])
  else (wb, [])

/-- `ctaphid_write(wb, data, len)`; `none` is the null pointer. -/
def ctaphidWrite (wb : WriteBuffer) : Option (List UInt8) → WriteBuffer × List Packet
  | none => wb.flush
  | some data => wb.putBytes data

/-- A sequence of `ctaphid_write` calls and the reports they send. -/
def writes (wb : WriteBuffer) : List (Option (List UInt8)) → WriteBuffer × List Packet
  | [] => (wb, [])
  | d :: ds =>
    let r := wb.ctaphidWrite d
    let r' := r.1.writes ds
    (r'.1, r.2 ++ r'.2)

end WriteBuffer

/-- All reports of one message: the pieces in turn, then the flush. -/
def sendMessage (cid : UInt32) (cmd : UInt8) (bcnt : UInt16) (pieces : List (List UInt8)) :
    List Packet :=
  (WriteBuffer.writes { cid, cmd, bcnt } (pieces.map some ++ [none])).2

/-- `send_init_response`; the version bytes are those of the app. -/
def sendInitResponse (version : UInt8 × UInt8 × UInt8) (oldcid newcid : UInt32)
    (nonce : List UInt8) : List Packet :=
  sendMessage oldcid ctaphidInit 17
    [nonce.take 8 ++ le32 newcid ++ [ctaphidProtocolVersion, version.1, version.2.1, version.2.2,
      ctapCapabilities]]

/-! ## Receiving a packet -/

/-- The return value and the output parameters of `ctaphid_buffer_packet`; `cmd` and `len` keep the
caller's zeroes where the function does not set them. -/
structure Received where
  status : BufferStatus
  cid : UInt32
  cmd : UInt8 := 0
  len : UInt16 := 0
  deriving DecidableEq, Repr

/-- The end of the `CTAPHID_INIT` branch, after the channel was added or refreshed. -/
def replyInit (version : UInt8 × UInt8 × UInt8) (pkt : Packet) (newcid : UInt32)
    (r : Bool × Layer) : Received × Layer :=
  if r.1 then
    let l := { r.2 with
      sent := r.2.sent ++ sendInitResponse version pkt.cid newcid pkt.initPayload }
    (⟨.hidIgnore, pkt.cid, 0, 0⟩, l.cidDel newcid)
  else (⟨.hidError, pkt.cid, ctap1ErrChannelBusy, 0⟩, r.2)

/-- The `CTAPHID_INIT` branch of `ctaphid_buffer_packet`. -/
def bufferInitPacket (version : UInt8 × UInt8 × UInt8) (l : Layer) (pkt : Packet) :
    Received × Layer :=
  if pkt.len ≠ 8 then (⟨.hidError, pkt.cid, ctap1ErrInvalidLength, 0⟩, l)
  else if pkt.cid = 0 then (⟨.hidError, pkt.cid, ctap1ErrInvalidChannel, 0⟩, l)
  else
    let l := { l with buffer := l.buffer.reset }
    if pkt.isBroadcast then
      let newcid := getNewCid l.lastCid
      replyInit version pkt newcid ({ l with lastCid := newcid }.addCid newcid)
    else
      replyInit version pkt pkt.cid
        (if cidExists l.cids pkt.cid then l.cidRefresh pkt.cid else l.addCid pkt.cid)

/-- The last part of `ctaphid_buffer_packet`: buffer the packet and refresh its channel.  `none` is
the `exit(1)` of a failed refresh. -/
def acceptPacket (l : Layer) (pkt : Packet) : Option (Received × Layer) :=
  let r := l.buffer.packet pkt
  let l := { l with buffer := r.2 }
  if r.1 then some (⟨.hidError, pkt.cid, ctap1ErrInvalidSeq, 0⟩, l)
  else
    let r := l.cidRefresh pkt.cid
    if r.1 then
      some (⟨r.2.buffer.status, pkt.cid, r.2.buffer.cmd, r.2.buffer.bcnt⟩, r.2)
    else none

/-- An initialisation packet on an unknown channel enters the channel when nothing is buffered. -/
def enterChannel (l : Layer) (pkt : Packet) : Layer :=
  if !cidExists l.cids pkt.cid && !pkt.isContPkt && l.buffer.status == .empty then
    (l.addCid pkt.cid).2
  else l

/-- The channel logic of `ctaphid_buffer_packet` for a packet that is not `CTAPHID_INIT`. -/
def routePacket (l : Layer) (pkt : Packet) : Option (Received × Layer) :=
  if cidExists l.cids pkt.cid then
    if l.buffer.status = .buffering ∧ pkt.cid = l.buffer.cid ∧ !pkt.isContPkt then
      some (⟨.hidError, pkt.cid, ctap1ErrInvalidSeq, 0⟩, l)
    else if l.buffer.status = .buffering ∧ pkt.cid ≠ l.buffer.cid then
      if !pkt.isContPkt then some (⟨.hidError, pkt.cid, ctap1ErrChannelBusy, 0⟩, l)
      else some (⟨.hidIgnore, pkt.cid, 0, 0⟩, l)
    else if !pkt.isContPkt then
      if ctaphidBufferSize < pkt.len.toNat then
        some (⟨.hidError, pkt.cid, ctap1ErrInvalidLength, 0⟩, l)
      else acceptPacket l pkt
    else if l.buffer.status = .empty ∨ pkt.cid ≠ l.buffer.cid then
      some (⟨.hidIgnore, pkt.cid, 0, 0⟩, l)
    else acceptPacket l pkt
  else if pkt.isContPkt then some (⟨.hidIgnore, pkt.cid, 0, 0⟩, l)
  else some (⟨.hidError, pkt.cid, ctap1ErrChannelBusy, 0⟩, l)

/-- `ctaphid_buffer_packet`. -/
def ctaphidBufferPacket (version : UInt8 × UInt8 × UInt8) (l : Layer) (pkt : Packet) :
    Option (Received × Layer) :=
  if pkt.isInitPkt then some (bufferInitPacket version l pkt)
  else if pkt.cid = ctaphidBroadcastCid then
    some (⟨.hidError, pkt.cid, ctap1ErrInvalidChannel, 0⟩, l)
  else routePacket (enterChannel l pkt) pkt

end TkeyFido2.Hid
