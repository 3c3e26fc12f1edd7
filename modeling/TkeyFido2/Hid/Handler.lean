import TkeyFido2.Ctap.Request
import TkeyFido2.Ctap.U2f
import TkeyFido2.Hid.Ctaphid

/-!
# Handling packets

`ctaphid_handle_packet`, `ctaphid_custom_command` and `ctaphid_check_timeouts`, over the transport
layer and the authenticator behind it.  What the environment does while a message is served is given
in advance, also how often the user presence test polls, since every poll sends a KEEPALIVE.
-/

namespace TkeyFido2.Hid

open Cbor

def ctaphidPing : UInt8 := 0x81
def ctaphidMsg : UInt8 := 0x83
def ctaphidWink : UInt8 := 0x88
def ctaphidCbor : UInt8 := 0x90
def ctaphidCancel : UInt8 := 0x91
def ctaphidKeepalive : UInt8 := 0xbb
def ctaphidError : UInt8 := 0xbf
def ctaphidWriteCert : UInt8 := 0xd1
def ctaphidWriteKey : UInt8 := 0xd2
def ctaphidReboot : UInt8 := 0xd3
def ctaphidGetrng : UInt8 := 0xe0
def ctaphidGetversion : UInt8 := 0xe1

def ctap1ErrInvalidCommand : UInt8 := 0x01
def ctap1ErrTimeout : UInt8 := 0x05
def ctap1ErrOther : UInt8 := 0x7f

def ctaphidStatusProcessing : UInt8 := 1
def ctaphidStatusUpneeded : UInt8 := 2

/-! ## Messages to the host -/

/-- A message and the pieces in which it is written. -/
structure Message where
  cid : UInt32
  cmd : UInt8
  bcnt : UInt16
  pieces : List (List UInt8)

namespace Message

def packets (m : Message) : List Packet := sendMessage m.cid m.cmd m.bcnt m.pieces

/-- `ctaphid_send_error`. -/
def error (cid : UInt32) (error : UInt8) : Message := ⟨cid, ctaphidError, 1, [[error]]⟩

/-- `ctaphid_update_status`. -/
def keepalive (cid : UInt32) (status : UInt8) : Message := ⟨cid, ctaphidKeepalive, 1, [[status]]⟩

end Message

/-- The statuses that the user presence tests of a request send: one for every poll, and one when the
user touches the device. -/
def presenceStatuses (polls : Nat → Nat) : Nat → List Event → List UInt8
  | _, [] => []
  | i, .presenceTested present :: es =>
    List.replicate (polls i) ctaphidStatusUpneeded
      ++ (if present then [ctaphidStatusProcessing] else []) ++ presenceStatuses polls (i + 1) es
  | i, _ :: es => presenceStatuses polls i es

namespace Layer

/-- Write messages. -/
def send (l : Layer) (ms : List Message) : Layer :=
  { l with sent := l.sent ++ ms.flatMap Message.packets }

def bufferReset (l : Layer) : Layer := { l with buffer := l.buffer.reset }

end Layer

/-! ## Timeouts -/

/-- The body of the loop of `ctaphid_check_timeouts`. -/
def checkTimeout (c : Cid) (l : Layer) : Cid × Layer :=
  if c.busy then
    let (now, l) := l.millis
    if 750 ≤ now.toUInt64 - c.lastUsed then
      let l := l.send [.error c.cid ctap1ErrTimeout]
      ({ c with busy := false }, if c.cid = l.buffer.cid then l.bufferReset else l)
    else (c, l)
  else (c, l)

/-- The loop of `ctaphid_check_timeouts`.  The last entry of `CIDS` is never busy. -/
def checkTimeoutsLoop : List Cid → Layer → List Cid × Layer
  | [], l => ([], l)
  | c :: cs, l =>
    let r := checkTimeout c l
    let r' := checkTimeoutsLoop cs r.2
    (r.1 :: r'.1, r'.2)

/-- `ctaphid_check_timeouts`. -/
def ctaphidCheckTimeouts (l : Layer) : Layer :=
  let r := checkTimeoutsLoop l.cids l
  { r.2 with cids := r.1 }

/-! ## The device -/

/-- The transport layer and the authenticator. -/
structure Device where
  layer : Layer
  world : World
  /-- The static flag of `ctaphid_handle_packet`. -/
  isBusy : Bool := false
  /-- The file `attestation_key`; the key in memory is the one loaded at the start. -/
  keyFile : List UInt8 := []

/-- What happens while a packet is handled. -/
structure Env where
  inputs : Inputs
  polls : Nat → Nat

namespace Device

def send (d : Device) (ms : List Message) : Device := { d with layer := d.layer.send ms }

/-- The end of `ctaphid_handle_packet`. -/
def release (d : Device) (cid : UInt32) : Device :=
  { d with layer := (d.layer.cidDel cid).bufferReset }

/-- Run a function of the authenticator.  None of those called here ends with a status. -/
def run {α : Type} (d : Device) (env : Env) (m : CtapM α) : Except Halt (α × Device) :=
  match m (d.world.withInputs env.inputs) with
  | .ok a w => .ok (a, { d with world := w })
  | .error (.halt h) _ => .error h
  | .error (.status _) _ => .error .assert

/-- Send what `device_set_status` sends during a request. -/
def sendStatuses (d : Device) (env : Env) (cid : UInt32) : Device :=
  d.send ((ctaphidStatusProcessing :: presenceStatuses env.polls 0 d.world.trace).map
    (Message.keepalive cid))

end Device

/-! ## Attestation files -/

/-- `attestation_write_key`: the file, unless the key has another size or the file is there. -/
def attestationWriteKey (P : Platform) (keyFile key : List UInt8) : CtapM (Option (List UInt8)) := do
  if key.length ≠ 32 ∨ keyFile ≠ [] then pure none
  else
    let nonce ← ctapGenerateRng 16
    let keyEnc := P.prims.aesCtr P.keyAttestationEnc nonce (Bytes.ofList 32 key)
    let body := keyEnc.toList ++ nonce.toList
    pure (some (body ++ deviceMac P body))

/-- `attestation_write_cert`: whether the file was written. -/
def attestationWriteCert (cert : List UInt8) : CtapM Bool := do
  let w ← get
  if attestationMaxCertSize < cert.length ∨ w.attestationCert.getD [] ≠ [] then pure false
  else
    set { w with attestationCert := some cert }
    pure true

/-! ## Commands -/

/-- The numbers of the status codes. -/
def statusByte : CtapStatus → UInt8
  | .ok => 0x00
  | .error e => match e with
    | .invalidCommand => 0x01
    | .invalidParameter => 0x02
    | .invalidLength => 0x03
    | .cborUnexpectedType => 0x11
    | .invalidCbor => 0x12
    | .missingParameter => 0x14
    | .limitExceeded => 0x15
    | .credentialExcluded => 0x19
    | .invalidCredential => 0x22
    | .unsupportedAlgorithm => 0x26
    | .operationDenied => 0x27
    | .keyStoreFull => 0x28
    | .invalidOption => 0x2c
    | .noCredentials => 0x2e
    | .userActionTimeout => 0x2f
    | .notAllowed => 0x30
    | .pinInvalid => 0x31
    | .pinBlocked => 0x32
    | .pinAuthInvalid => 0x33
    | .pinAuthBlocked => 0x34
    | .pinNotSet => 0x35
    | .puatRequired => 0x36
    | .pinPolicyViolation => 0x37
    | .invalidSubcommand => 0x3e
    | .unauthorizedPermission => 0x40
    | .userPresenceDisabled => 0xf1
    | .other => 0x7f
    | .indeterminate v => v

/-- The version of the app: major, minor, patch. -/
abbrev Version := UInt8 × UInt8 × UInt8

section Commands

variable (version : Version) (P : Platform) (env : Env)

/-- The message of `len` bytes in the buffer. -/
def Device.message (d : Device) (len : UInt16) : List UInt8 := d.layer.buffer.data.toList.take len.toNat

/-- Put bytes at the start of `ctap_buffer`. -/
def Device.patchBuffer (d : Device) (l : List UInt8) : Device :=
  { d with layer := { d.layer with buffer := { d.layer.buffer with data := d.layer.buffer.data.patch 0 l } } }

/-- The reply of the two vendor commands that write a file. -/
def writeReply (d : Device) (cid : UInt32) (cmd : UInt8) (written : Bool) : Device :=
  d.send [⟨cid, cmd, 1, [[if written then 0 else ctap1ErrOther]]⟩]

/-- `ctaphid_custom_command`; the flag is whether its result is not 0. -/
def ctaphidCustomCommand (d : Device) (cid : UInt32) (cmd : UInt8) (len : UInt16) :
    Except Halt (Bool × Device) := do
  if cmd = ctaphidWriteKey then
    if len = 0 then pure (false, d.send [.error cid ctap1ErrInvalidLength])
    else
      let (file, d) ← d.run env (attestationWriteKey P d.keyFile (d.message len))
      pure (true, writeReply { d with keyFile := file.getD d.keyFile } cid cmd file.isSome)
  else if cmd = ctaphidWriteCert then
    if len = 0 then pure (false, d.send [.error cid ctap1ErrInvalidLength])
    else
      let (written, d) ← d.run env (attestationWriteCert (d.message len))
      pure (true, writeReply d cid cmd written)
  else if cmd = ctaphidReboot then throw .assert
  else if cmd = ctaphidGetrng then
    -- the number of bytes is the first one of the buffer, also where the message is empty
    let asked := d.layer.buffer.data.byte 0
    let bcnt := if asked = 0 then 57 else asked.toNat
    let (rng, d) ← d.run env (ctapGenerateRng bcnt)
    pure (true, (d.patchBuffer rng.toList).send [⟨cid, cmd, UInt16.ofNat bcnt, [rng.toList]⟩])
  else if cmd = ctaphidGetversion then
    let bytes := [version.1, version.2.1, version.2.2, 0]
    pure (true, (d.patchBuffer bytes).send [⟨cid, cmd, 4, [bytes]⟩])
  else pure (false, d)

/-- The two checks in front of the commands that need the authenticator: the message with which
`ctaphid_handle_packet` returns. -/
def refuse (d : Device) (cid : UInt32) (len : UInt16) : Option Message :=
  if len = 0 then some (.error cid ctap1ErrInvalidLength)
  else if d.isBusy then some (.error cid ctap1ErrChannelBusy)
  else none

/-- `CTAPHID_CBOR`; the flag is whether the `switch` is left by `break`. -/
def handleCbor (d : Device) (cid : UInt32) (cmd : UInt8) (len : UInt16) : Except Halt (Bool × Device) :=
  match refuse d cid len with
  | some m => pure (false, d.send [m])
  | none => do
    let msg := d.message len
    let ((status, data), d) ← { d with isBusy := true }.run env (ctapRequest P (msg.headD 0) msg.tail)
    let d := d.sendStatuses env cid
    if 0xffff < data.length + 1 then pure (false, d.send [.error cid ctap1ErrInvalidLength])
    else
      let d := d.send [⟨cid, cmd, UInt16.ofNat (data.length + 1), [[statusByte status], data]⟩]
      pure (true, { d with isBusy := false })

/-- `CTAPHID_MSG`. -/
def handleMsg (d : Device) (cid : UInt32) (cmd : UInt8) (len : UInt16) : Except Halt (Bool × Device) :=
  match refuse d cid len with
  | some m => pure (false, d.send [m])
  | none => do
    let buf := d.layer.buffer.data
    let ((data, buf'), d) ← { d with isBusy := true }.run env (u2fRequest P buf)
    let d := if CtapBuffer.cla buf = 0 then d.sendStatuses env cid else d
    let d := d.patchBuffer buf'.toList
    if 0xffff < data.length then pure (false, d.send [.error cid ctap1ErrInvalidLength])
    else
      let d := d.send [⟨cid, cmd, UInt16.ofNat data.length, [data]⟩]
      pure (true, { d with isBusy := false })

/-- The `switch` of `ctaphid_handle_packet`. -/
def handleCommand (d : Device) (cid : UInt32) (cmd : UInt8) (len : UInt16) :
    Except Halt (Bool × Device) := do
  if cmd = ctaphidInit then throw .exit
  else if cmd = ctaphidPing then pure (true, d.send [⟨cid, cmd, len, [d.message len]⟩])
  else if cmd = ctaphidWink then pure (true, d.send [⟨cid, cmd, 0, []⟩])
  else if cmd = ctaphidCbor then handleCbor P env d cid cmd len
  else if cmd = ctaphidMsg then handleMsg P env d cid cmd len
  else if cmd = ctaphidCancel then pure (true, { d with isBusy := false })
  else
    let (done, d) ← ctaphidCustomCommand version P env d cid cmd len
    if done then pure (true, { d with isBusy := false })
    else pure (true, d.send [.error cid ctap1ErrInvalidCommand])

/-- The error exit of `ctaphid_handle_packet`. -/
def handleError (d : Device) (cid : UInt32) (error : UInt8) : Device :=
  let l := d.layer.cidDel cid
  let l := if error = ctap1ErrInvalidSeq then l.bufferReset else l
  { d with layer := l.send [.error cid error] }

/-- `ctaphid_handle_packet`. -/
def ctaphidHandlePacket (d : Device) (pkt : Packet) : Except Halt Device :=
  match ctaphidBufferPacket version d.layer pkt with
  | none => throw .exit
  | some (r, l) =>
    let d := { d with layer := l }
    match r.status with
    | .hidIgnore => pure d
    | .hidError => pure (handleError d r.cid r.cmd)
    | .buffering => pure { d with layer := l.millis.2 }
    | _ => do
      let (done, d) ← handleCommand version P env d r.cid r.cmd r.len
      pure (if done then d.release r.cid else d)

end Commands

/-! ## Runs -/

/-- The device after a start: nothing received, the authenticator just started. -/
def Device.IsStarted (P : Platform) (d : Device) : Prop :=
  d.layer.cids = List.replicate 9 {} ∧ d.layer.lastCid = 1 ∧ d.layer.buffer = {} ∧ d.isBusy = false ∧
    ∃ h, Run P (.boot d.world :: h) d.world

/-- The states between two rounds of the main loop. -/
inductive Reached (version : Version) (P : Platform) : Device → Prop
  | start {d : Device} (h : d.IsStarted P) : Reached version P d
  | packet {d d' : Device} (h : Reached version P d) (env : Env) (pkt : Packet)
      (hp : ctaphidHandlePacket version P env d pkt = .ok d') : Reached version P d'
  | timeouts {d : Device} (h : Reached version P d) :
      Reached version P { d with layer := ctaphidCheckTimeouts d.layer }

end TkeyFido2.Hid
