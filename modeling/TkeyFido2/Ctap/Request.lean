import TkeyFido2.Ctap.CredentialManagement

/-!
# Requests and power cycles

`ctap_request`, the commands that fit nowhere else, and `ctap_init`.  A run is a history of served
requests and power cycles that begins with the first start of a new device.
-/

namespace TkeyFido2

open Cbor Prog

/-! ## authenticatorGetInfo -/

/-- A run of encoder calls. -/
def encodeAll (calls : List (Encoder → EncM Encoder)) (e : Encoder) : EncM Encoder :=
  calls.foldlM (fun e call => call e) e

/-- A container with its items. -/
def inContainer (create : Encoder → EncM Encoder) (items : List (Encoder → EncM Encoder))
    (e : Encoder) : EncM Encoder := do
  let inner ← create e
  let inner ← encodeAll items inner
  e.close inner

def encodeText (s : String) (e : Encoder) : EncM Encoder := e.textString (ascii s)

/-- An entry of the list of algorithms. -/
def encodeAlgorithm (absoluteValue : Nat) : Encoder → EncM Encoder :=
  inContainer (·.createMap 2) [encodeText "alg", (·.negativeInt absoluteValue), encodeText "type",
    encodeText "public-key"]

/-- `ctap_get_info`. -/
def ctapGetInfo : CtapM (List UInt8) := do
  let pinSet := clientPinIsSet (← get)
  let encoder ← encode (inContainer (·.createMap 10)
    [(·.uint 1), inContainer (·.createArray 2) [encodeText "FIDO_2_0", encodeText "FIDO_2_1"],
     (·.uint 2), inContainer (·.createArray 2) [encodeText "credProtect", encodeText "hmac-secret"],
     (·.uint 3), (·.byteString aaguid),
     (·.uint 4), inContainer (·.createMap 6)
       [encodeText "rk", (·.boolean true), encodeText "up", (·.boolean true),
        encodeText "plat", (·.boolean false), encodeText "credMgmt", (·.boolean true),
        encodeText "clientPin", (·.boolean pinSet), encodeText "pinUvAuthToken", (·.boolean true)],
     (·.uint 5), (·.int 1200),
     (·.uint 6), inContainer (·.createArray 2) [(·.int 1), (·.int 2)],
     (·.uint 7), (·.uint allowListMaxSize),
     (·.uint 8), (·.uint 128),
     (·.uint 9), inContainer (·.createArray 1) [encodeText "usb"],
     (·.uint 10), inContainer (·.createArray 2) [encodeAlgorithm 8, encodeAlgorithm 7]]
    responseEncoder)
  pure encoder.out

/-! ## authenticatorReset -/

variable (P : Platform)

/-- `ctap_state_init`. -/
def ctapStateInit : CtapM Unit := do
  let keySalt ← ctapGenerateRng 64
  modify fun w => { w with
    state := {
      version := stateVersion
      appVersion := w.appVersion
      remainingTries := pinLockoutAttempts
      keySalt := keySalt } }
  ctapResetRk

/-- `crypto_derive_session_keys` with the salt in `STATE`. -/
def deriveKeys : CtapM Unit := modify fun w => { w with keys := P.deriveSessionKeys w.state.keySalt }

def authenticatorResetTimeMs : UInt32 := 10 * 1000

/-- `ctap_reset`. -/
def ctapReset : CtapM (List UInt8) := do
  let now ← millis
  failIf (authenticatorResetTimeMs < now) .notAllowed
  requireUserPresence
  ctapStateInit
  authenticatorWriteState P
  modify fun w => { w with ga := {} }
  clientPinInitialize
  deriveKeys P
  pure []

/-! ## ctap_request -/

/-- The commands of `ctap_request`. -/
inductive Command
  | makeCredential
  | getAssertion
  | getInfo
  | clientPin
  | reset
  | getNextAssertion
  | credentialManagement
  | selection
  | invalid
  deriving DecidableEq, Repr

/-- The command of a command byte. -/
def commandOf (cmd : UInt8) : Command :=
  if cmd = 0x01 then .makeCredential
  else if cmd = 0x02 then .getAssertion
  else if cmd = 0x04 then .getInfo
  else if cmd = 0x06 then .clientPin
  else if cmd = 0x07 then .reset
  else if cmd = 0x08 then .getNextAssertion
  else if cmd = 0x0A ∨ cmd = 0x41 then .credentialManagement
  else if cmd = 0x0B then .selection
  else .invalid

/-- The commands that are refused while the PIN is locked. -/
def Command.checksLock : Command → Bool
  | .makeCredential | .getAssertion | .credentialManagement => true
  | _ => false

/-- `CTAP_SELECTION`. -/
def ctapSelection : CtapM (List UInt8) := do
  let r ← ctap2UserPresenceTest
  failIf (r ≠ .ok) .userActionTimeout
  pure []

/-- The two `switch` statements of `ctap_request`. -/
def dispatch (cmd : Command) (request : List UInt8) : CtapM (List UInt8) := do
  failIf (cmd.checksLock ∧ clientPinIsLocked (← get)) .pinBlocked
  failIf (cmd.checksLock ∧ clientPinIsBootLocked (← get)) .pinAuthBlocked
  match cmd with
  | .makeCredential => ctapMakeCredential P request
  | .getAssertion => ctapGetAssertion P request
  | .getInfo => ctapGetInfo
  | .clientPin => ctapClientPin P request
  | .reset => ctapReset P
  | .getNextAssertion => do
    failIf ((← get).ga.lastcmd ≠ 0x02) .notAllowed
    ctapGetNextAssertion P
  | .credentialManagement => ctapCredentialManagement P request
  | .selection => ctapSelection
  | .invalid => failWith .invalidCommand

/-- The value that `ctap_request` leaves in `lastcmd`. -/
def nextLastcmd (cmd : UInt8) (status : CtapStatus) : UInt8 :=
  if cmd = 0x08 ∧ status = .ok then 0x02 else cmd

/-- `ctap_request` of a message that begins with `cmd`: status and response. -/
def ctapRequest (cmd : UInt8) (request : List UInt8) : CtapM (CtapStatus × List UInt8) := do
  let r : CtapStatus × List UInt8 ← tryCatch
    (do
      let out ← dispatch P (commandOf cmd) request
      pure (.ok, out))
    fun e =>
      match e with
      | .status s => pure (.error s, [])
      | .halt h => throw (.halt h)
  modify fun w => { w with ga := { w.ga with lastcmd := nextLastcmd cmd r.1 } }
  pure r

/-! ## Power cycles -/

/-- `version_compare` of raw versions: major, minor, patch. -/
def versionLt (a b : UInt32) : Bool := memcmpLt ((le32 a).take 3) ((le32 b).take 3)

/-- The state of `ctap_init`: the stored one, or a new one. -/
def loadState : CtapM Unit := do
  match readEnvelope P (← get).state (← get).stateFile with
  | .error (.halt h) => throw (.halt h)
  | .ok (some s) => modify fun w => { w with state := s }
  | _ =>
    ctapStateInit
    authenticatorWriteState P

/-- The update of the version in `ctap_init`. -/
def updateAppVersion : CtapM Unit := do
  modify fun w => { w with state := { w.state with appVersion := w.appVersion } }
  authenticatorWriteState P

/-- `ctap_init`; `false` is the result -1. -/
def ctapInit : CtapM Bool := do
  loadState P
  let w ← get
  if versionLt w.appVersion w.state.appVersion then pure false
  else
    onlyIf (versionLt w.state.appVersion w.appVersion) (updateAppVersion P)
    deriveKeys P
    clientPinInitialize
    pure true

def zeroKeys : SessionKeys :=
  { credPriv := Bytes.zero 32, credMac := Bytes.zero 32, metaEnc := Bytes.zero 32,
    hmacExt := Bytes.zero 32 }

namespace World

/-- The start of a request: new inputs, nothing recorded. -/
def withInputs (w : World) (inputs : Inputs) : World := { w with
  inputs := inputs
  rngPos := 0
  presencePos := 0
  millisPos := 0
  trace := [] }

/-- Memory after power on, with the files of `w`. -/
def powerOn (w : World) (appVersion : UInt32) : World := { w with
  appVersion := appVersion
  state := {}
  keys := zeroKeys
  token := fun _ => {}
  pinBootAttemptsLeft := pinBootAttempts
  ga := {}
  cm := {}
  upDisabled := false }

/-- A device that was never started: no state file, no resident keys. -/
def IsNew (w : World) : Prop := w.stateFile = [] ∧ ∀ n, w.rkFiles n = []

end World

/-- A start of the device from the files of `w`, up to the first request. -/
def Boots (w w' : World) : Prop :=
  ∃ inputs version, ctapInit P ((w.powerOn version).withInputs inputs) = .ok true w'

/-! ## Runs -/

/-- A served request. -/
structure Served where
  before : World
  cmd : UInt8
  request : List UInt8
  status : CtapStatus
  response : List UInt8
  after : World

/-- `ctap_request` returned as recorded, for some inputs. -/
def Served.Valid (r : Served) : Prop :=
  ∃ inputs, ctapRequest P r.cmd r.request (r.before.withInputs inputs)
    = .ok (r.status, r.response) r.after

/-- What happened in a request. -/
def Served.events (r : Served) : List Event := r.after.trace

inductive Entry
  | boot (after : World)
  | request (r : Served)

/-- The histories of a device with the state they lead to, the newest entry first. -/
inductive Run : List Entry → World → Prop
  | start {w w' : World} (hw : w.IsNew) (h : Boots P w w') : Run [.boot w'] w'
  | request {h : List Entry} {w : World} (hr : Run h w) (r : Served) (hv : r.Valid P)
      (hb : r.before = w) : Run (.request r :: h) r.after
  | boot {h : List Entry} {w w' : World} (hr : Run h w) (hb : Boots P w w') : Run (.boot w' :: h) w'

/-- The states between two commands. -/
def Reachable (w : World) : Prop := ∃ h, Run P h w

end TkeyFido2
