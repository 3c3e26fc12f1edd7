import TkeyFido2.Lib.Prog
import TkeyFido2.Cbor.Encoder
import TkeyFido2.Ctap.Crypto

/-!
# The authenticator and its environment

Everything that outlives a function call: the files, the globals of `ctap.c`, `ctap_client_pin.c`
and `ctap_credential_management.c`, and what the environment supplies during a request.  File
system calls succeed, and a file of resident keys holds whole records.

`trace` records what happened in a request, for statements about runs.  No definition reads it.
-/

namespace TkeyFido2

open Cbor Prog

/-! ## Errors -/

/-- How a function ends other than with `CTAP2_OK`. -/
inductive Stop
  | status (s : CtapError)
  | halt (h : Halt)
  deriving DecidableEq, Repr

/-- A function that reads its arguments only. -/
abbrev Parse := Except Stop

/-- Return with a status. -/
def reject {α : Type} (s : CtapError) : Parse α := .error (.status s)

def rejectIf (c : Prop) [Decidable c] (s : CtapError) : Parse Unit :=
  if c then reject s else pure ()

/-- `cbor_check_ret` of a parser call. -/
def cborCheck {α : Type} : CborM α → Parse α
  | .ok a => pure a
  | .error (.err _) => reject .invalidCbor
  | .error (.halt h) => .error (.halt h)

/-- `cbor_check_ret` of an encoder call. -/
def encCheck {α : Type} : EncM α → Parse α
  | .ok a => pure a
  | .error _ => reject .invalidCbor

/-! ## State -/

/-- Values the environment supplies during a request. -/
structure Inputs where
  rng : Rng
  /-- Whether the user touches the device while it waits. -/
  presence : Nat → Bool
  /-- The readings of the millisecond timer. -/
  millis : Nat → UInt32
  /-- What a status variable holds that is not initialised. -/
  stackStatus : UInt8 := 0
  /-- What the buffer of `ctap_make_credential` holds before it is written to. -/
  stackCred : CredentialDescriptor := {}

/-- A change of the store of resident keys. -/
inductive RkChange
  /-- `ctap_overwrite_rk` stored a record. -/
  | stored (rk : ResidentKey)
  /-- `ctap_delete_rk` removed a record. -/
  | deleted (rk : ResidentKey)
  /-- `ctap_reset_rk` removed all. -/
  | reset
  deriving DecidableEq

/-- What happens in a request that a statement about runs may refer to. -/
inductive Event
  /-- `verify_against_stored_pin` and its result. -/
  | pinCompared (matched : Bool)
  /-- A pinUvAuthToken was issued, with its permissions and the RP ID they are bound to. -/
  | tokenIssued (slot : Slot) (token : Bytes 32) (permissions : UInt8) (rpId : Option (List UInt8))
  /-- A pinUvAuthParam verified over a message under the token of a record. -/
  | tokenVerified (slot : Slot) (token : Bytes 32) (message param : List UInt8)
  /-- `begin_using_pinUvAuthToken` put a record into use, at this reading of the timer. -/
  | tokenStarted (slot : Slot) (now : UInt32)
  /-- `ctap_client_pin_verify_auth_ex` was called for a record; where it is in use, with the reading of
  the timer. -/
  | tokenObserved (slot : Slot) (now : Option UInt32)
  /-- A user presence test that waited for the user. -/
  | presenceTested (present : Bool)
  /-- An hmac-secret output was computed from a credential ID and the recorded user verification. -/
  | hmacOutput (credential : CredentialId) (userVerified : UInt8) (output : List UInt8)
  /-- The list that `build_filtered_credential_list` left, up to the number it returned. -/
  | filtered (creds : List CredentialDescriptor)
  /-- A signature over authenticator data and client data hash with the key of a credential. -/
  | signed (cred : CredentialDescriptor) (authData : List UInt8) (clientDataHash : Bytes 32)
  /-- `ctap_sign_data` made a signature with a private key. -/
  | signature (alg : CoseAlg) (key : Bytes 32) (sig : List UInt8)
  /-- The file of the state was written. -/
  | stateWritten (s : AuthState)
  /-- One of the files of resident keys was written, or removed. -/
  | rkWritten (n : Fin 16) (l : List ResidentKey)
  /-- What a write to the files of resident keys changed. -/
  | rkChanged (c : RkChange)
  /-- The file of the signature counter was written. -/
  | counterWritten (count : UInt32)
  deriving DecidableEq

/-- `credential_management_state_t`. -/
structure CredMgmtState where
  valid : Bool := false
  initCmd : UInt8 := 0
  timestamp : UInt32 := 0
  rpIdHash : Bytes 32 := Bytes.zero 32
  listUniqueRps : Bytes 50 := Bytes.zero 50
  lenListUniqueRps : UInt8 := 0
  rkIdx : UInt8 := 0
  fileIdx : UInt8 := 0
  deriving DecidableEq

def pinLockoutAttempts : Int8 := 8
def pinBootAttempts : Int8 := 3

/-- Files, globals and environment. -/
structure World where
  /-- The file `state`. -/
  stateFile : List UInt8 := []
  /-- The file `counter`. -/
  counter : UInt32 := 0
  /-- The files `rk/0.dat` to `rk/f.dat`. -/
  rkFiles : Fin 16 → List ResidentKey := fun _ => []
  /-- `key_enc` and `nonce` of a valid file `attestation_key`. -/
  attestationKey : Option (Bytes 32 × Bytes 16) := none
  /-- The file `attestation_cert`. -/
  attestationCert : Option (List UInt8) := none
  /-- `app_version.raw` of the running program. -/
  appVersion : UInt32
  state : AuthState := {}
  keys : SessionKeys
  token : Slot → PinUvAuthToken := fun _ => {}
  pinBootAttemptsLeft : Int8 := pinBootAttempts
  ga : GetAssertionState := {}
  cm : CredMgmtState := {}
  upDisabled : Bool := false
  inputs : Inputs
  rngPos : Nat := 0
  presencePos : Nat := 0
  millisPos : Nat := 0
  trace : List Event := []

/-- A function of the authenticator. -/
abbrev CtapM := EStateM Stop World

/-- Return with a status. -/
def failWith {α : Type} (s : CtapError) : CtapM α := throw (.status s)

def failIf (c : Prop) [Decidable c] (s : CtapError) : CtapM Unit :=
  if c then failWith s else pure ()

/-- `ctap_check_ret`. -/
def checkStatus : CtapStatus → CtapM Unit
  | .ok => pure ()
  | .error e => failWith e

/-- `ctap_check_retr` of a function that changes nothing. -/
def ctapCheck {σ α : Type} (x : Parse α) : EStateM Stop σ α :=
  match x with
  | .ok a => pure a
  | .error e => throw e

/-- An `if` without an `else` in the middle of a function. -/
def onlyIf {σ : Type} (c : Prop) [Decidable c] (m : EStateM Stop σ Unit) : EStateM Stop σ Unit :=
  if c then m else pure ()

/-- Record an event. -/
def emit (e : Event) : CtapM Unit := modify fun w => { w with trace := w.trace ++ [e] }

namespace World

/-- Change one of the two token records. -/
def setToken (w : World) (slot : Slot) (t : PinUvAuthToken) : World :=
  { w with token := Function.update w.token slot t }

def modifyTokenState (w : World) (slot : Slot) (f : TokenState → TokenState) : World :=
  w.setToken slot { w.token slot with state := f (w.token slot).state }

end World

/-! ## Rules -/

section Parse

variable {α : Type}

@[simp] theorem reject_ne_ok {s : CtapError} {a : α} : (reject s : Parse α) = .ok a ↔ False := by
  simp [reject]

@[simp] theorem rejectIf_eq_ok {c : Prop} [Decidable c] {s : CtapError} {u : Unit} :
    rejectIf c s = .ok u ↔ ¬ c := by
  unfold rejectIf
  by_cases h : c <;> simp [h]

theorem cborCheck_eq_ok {y : CborM α} {a : α} : cborCheck y = .ok a ↔ y = .ok a := by
  cases y with
  | ok b =>
    show (pure b : Parse α) = .ok a ↔ _
    rw [except_pure_eq_ok, Except.ok.injEq, eq_comm]
  | error e => cases e <;> simp [cborCheck]

theorem encCheck_eq_ok {x : EncM α} {a : α} : encCheck x = .ok a ↔ x = .ok a := by
  cases x with
  | ok b =>
    show (pure b : Parse α) = .ok a ↔ _
    rw [except_pure_eq_ok, Except.ok.injEq, eq_comm]
  | error e => simp [encCheck]

end Parse

section Rules

variable {α : Type} {w w' : World} {Q : α → World → Prop} {E : Stop → World → Prop}

@[simp] theorem ends_failWith {s : CtapError} : Ends (failWith s : CtapM α) w Q E ↔ E (.status s) w :=
  Iff.rfl

@[simp] theorem ends_failIf {c : Prop} [Decidable c] {s : CtapError} {R : Unit → World → Prop} :
    Ends (failIf c s) w R E ↔ (c → E (.status s) w) ∧ (¬ c → R () w) := by
  unfold failIf
  by_cases h : c <;> simp [h]

theorem ends_onlyIf {c : Prop} [Decidable c] {m : CtapM Unit} {R : Unit → World → Prop} :
    Ends (onlyIf c m) w R E ↔ (c → Ends m w R E) ∧ (¬ c → R () w) := by
  unfold onlyIf
  by_cases h : c <;> simp [h]

@[simp] theorem ends_emit {e : Event} {R : Unit → World → Prop} :
    Ends (emit e) w R E ↔ R () { w with trace := w.trace ++ [e] } := Iff.rfl

theorem ends_ctapCheck {σ : Type} {s : σ} {Q : α → σ → Prop} {E : Stop → σ → Prop} {x : Parse α} :
    Ends (ctapCheck x) s Q E ↔ (∀ a, x = .ok a → Q a s) ∧ (∀ e, x = .error e → E e s) := by
  cases x with
  | ok a => simp [ctapCheck]
  | error e => simp [ctapCheck]

@[simp] theorem failWith_ne_ok {s : CtapError} {a : α} :
    (failWith s : CtapM α) w = .ok a w' ↔ False := throw_ne_ok

@[simp] theorem failIf_eq_ok {c : Prop} [Decidable c] {s : CtapError} {u : Unit} :
    failIf c s w = .ok u w' ↔ ¬ c ∧ w' = w := by
  unfold failIf
  by_cases h : c <;> simp [h]

@[simp] theorem checkStatus_eq_ok {s : CtapStatus} {u : Unit} :
    checkStatus s w = .ok u w' ↔ s = .ok ∧ w' = w := by
  cases s <;> simp [checkStatus]

@[simp] theorem emit_eq_ok {e : Event} {u : Unit} :
    emit e w = .ok u w' ↔ w' = { w with trace := w.trace ++ [e] } := modify_eq_ok

theorem onlyIf_eq_ok {c : Prop} [Decidable c] {m : CtapM Unit} {u : Unit} :
    onlyIf c m w = .ok u w' ↔ (c ∧ m w = .ok u w') ∨ (¬ c ∧ w' = w) := by
  unfold onlyIf
  by_cases h : c <;> simp [h]

theorem ctapCheck_eq_ok {σ : Type} {s s' : σ} {x : Parse α} {a : α} :
    ctapCheck x s = .ok a s' ↔ x = .ok a ∧ s' = s := by
  cases x with
  | ok b => simp [ctapCheck, eq_comm]
  | error e => simp [ctapCheck]

theorem failIf_bind_of_not {c : Prop} [Decidable c] {s : CtapError} {k : Unit → CtapM α} (h : ¬ c) :
    (failIf c s >>= k) w = k () w := by
  unfold failIf
  rw [if_neg h]
  rfl

theorem failIf_bind_of {c : Prop} [Decidable c] {s : CtapError} {k : Unit → CtapM α} (h : c) :
    (failIf c s >>= k) w = .error (.status s) w := by
  unfold failIf
  rw [if_pos h]
  rfl

theorem failIf_bind_eq_ok {c : Prop} [Decidable c] {s : CtapError} {k : Unit → CtapM α} {a : α} :
    (failIf c s >>= k) w = .ok a w' ↔ ¬ c ∧ k () w = .ok a w' := by
  rw [bind_eq_ok]
  constructor
  · rintro ⟨_, _, h, hk⟩
    obtain ⟨hc, rfl⟩ := failIf_eq_ok.mp h
    exact ⟨hc, hk⟩
  · rintro ⟨hc, hk⟩
    exact ⟨(), w, failIf_eq_ok.mpr ⟨hc, rfl⟩, hk⟩

theorem ctapCheck_bind_eq_ok {σ β : Type} {s s' : σ} {x : Parse α} {k : α → EStateM Stop σ β} {b : β} :
    (ctapCheck x >>= k) s = .ok b s' ↔ ∃ a, x = .ok a ∧ k a s = .ok b s' := by
  rw [bind_eq_ok]
  constructor
  · rintro ⟨a, _, h, hk⟩
    obtain ⟨hx, rfl⟩ := ctapCheck_eq_ok.mp h
    exact ⟨a, hx, hk⟩
  · rintro ⟨a, hx, hk⟩
    exact ⟨a, s, ctapCheck_eq_ok.mpr ⟨hx, rfl⟩, hk⟩

end Rules

end TkeyFido2
