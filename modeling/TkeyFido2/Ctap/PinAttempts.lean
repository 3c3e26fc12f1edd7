import TkeyFido2.Ctap.Persistence

/-!
# PIN attempts

The two counters of failed PIN entries, the persistent one and the one of the power cycle, against
the comparisons that really took place.
-/

namespace TkeyFido2

open Cbor Prog

/-! ## The account -/

/-- Both counters, and what happened in the request: the comparisons and the tokens issued. -/
structure PinAccount where
  tries : Int8
  boot : Int8
  checks : List Bool
  issued : List Event

def World.account (w : World) : PinAccount where
  tries := w.state.remainingTries
  boot := w.pinBootAttemptsLeft
  checks := w.pinChecks
  issued := w.issued

/-- The account without the tokens. -/
def World.counters (w : World) : Int8 × Int8 × List Bool :=
  (w.state.remainingTries, w.pinBootAttemptsLeft, w.pinChecks)

/-- Neither of the locks is closed. -/
def PinAccount.Unlocked (a : PinAccount) : Prop := 0 < a.tries ∧ 0 < a.boot

/-- What a command may do to the account: compare no PIN, or one that is wrong, or one that is
right.  Only the last issues tokens, and it restores both counters unless no attempt is missing. -/
inductive Accounted (a : PinAccount) : PinAccount → Prop
  | quiet : Accounted a a
  | failed (h : a.Unlocked) : Accounted a ⟨a.tries - 1, a.boot - 1, a.checks ++ [false], a.issued⟩
  | matched (h : a.Unlocked) (boot : Int8)
      (hb : boot = if a.tries = pinLockoutAttempts then a.boot else pinBootAttempts)
      (issued : List Event) : Accounted a ⟨pinLockoutAttempts, boot, a.checks ++ [true], issued⟩

/-- From states with `g`, `m` ends with its account in order, unless the program stops. -/
def AccountsWhen {α : Type} (g : PinAccount → Prop) (m : CtapM α) : Prop :=
  ∀ w : World, g w.account → Ends m w (fun _ w' => Accounted w.account w'.account)
    fun e w' => ∀ s, e = .status s → Accounted w.account w'.account

section Rules

variable {α β : Type} {g : PinAccount → Prop} {m : CtapM α} {k : α → CtapM β} {S : List Part}

theorem World.counters_eq {w w' : World} (h₁ : w'.pinState = w.pinState)
    (h₂ : w'.pinBootAttemptsLeft = w.pinBootAttemptsLeft) (h₃ : w'.pinChecks = w.pinChecks) :
    w'.counters = w.counters := by
  have h : w'.state.remainingTries = w.state.remainingTries := congrArg (fun x => x.2.1) h₁
  unfold World.counters
  rw [h, h₂, h₃]

theorem World.account_eq {w w' : World} (h₁ : w'.counters = w.counters) (h₂ : w'.issued = w.issued) :
    w'.account = w.account := by
  obtain ⟨ht, hb, hc⟩ : _ ∧ _ ∧ _ := by simpa [World.counters] using h₁
  unfold World.account
  rw [ht, hb, hc, h₂]

theorem keeps_counters (h : Touches S m) (hS : ∀ p ∈ [Part.pinState, .boot, .pinChecks], p ∉ S) :
    Keeps World.counters m := fun w =>
  World.counters_eq (h .pinState (hS _ (by decide)) w) (h .boot (hS _ (by decide)) w)
    (h .pinChecks (hS _ (by decide)) w)

theorem keeps_account (h : Touches S m)
    (hS : ∀ p ∈ [Part.pinState, .boot, .pinChecks, .issued], p ∉ S) : Keeps World.account m := fun w =>
  World.account_eq
    (keeps_counters h (fun p hp => hS p
      ((by decide : [Part.pinState, .boot, .pinChecks] ⊆ [.pinState, .boot, .pinChecks, .issued]) hp)) w)
    (h .issued (hS _ (by decide)) w)

theorem accounts_of_keeps (h : Keeps World.account m) : AccountsWhen g m := by
  intro w _
  refine ends_of_runs (fun a w' hm => ?_) fun e w' hm _ _ => ?_
  · rw [h.ok hm]; exact .quiet
  · rw [h.error hm]; exact .quiet

theorem accounts_of_touches (h : Touches S m)
    (hS : ∀ p ∈ [Part.pinState, .boot, .pinChecks, .issued], p ∉ S) : AccountsWhen g m :=
  accounts_of_keeps (keeps_account h hS)

/-- Before the comparison. -/
theorem accounts_bind (hm : Keeps World.account m) (hk : ∀ a, AccountsWhen g (k a)) :
    AccountsWhen g (m >>= k) := by
  intro w hw
  rw [ends_bind]
  refine ends_of_runs (fun a w₁ hok => ?_) fun e w₁ herr _ _ => ?_
  · have hacc : w₁.account = w.account := hm.ok hok
    have := hk a w₁ (hacc.symm ▸ hw)
    rwa [hacc] at this
  · rw [hm.error herr]; exact .quiet

/-- Behind the comparison. -/
theorem accounts_bind_keeps (hm : AccountsWhen g m) (hk : ∀ a, Keeps World.account (k a)) :
    AccountsWhen g (m >>= k) := by
  intro w hw
  rw [ends_bind]
  refine (hm w hw).mono (fun a w₁ h => ?_) fun _ _ h => h
  refine ends_of_runs (fun b w₂ hok => ?_) fun e w₂ herr _ _ => ?_
  · rwa [(hk a).ok hok]
  · rwa [(hk a).error herr]

theorem accounts_ite {c : Prop} [Decidable c] {m' : CtapM α} (h : c → AccountsWhen g m)
    (h' : ¬ c → AccountsWhen g m') : AccountsWhen g (if c then m else m') := by
  by_cases hc : c
  · rw [if_pos hc]; exact h hc
  · rw [if_neg hc]; exact h' hc

end Rules

/-! ## Counting -/

section Counting

variable {P : Platform}

theorem flushed_account (w : World) : (w.flushed P).account = w.account :=
  (keeps_account touches_authenticatorWriteState (by decide)).ok (authenticatorWriteState_eq w)

/-- `decrement_pin_attempts` with both locks open. -/
theorem decrementPinAttempts_account {w : World} (h : w.account.Unlocked) :
    Ends (decrementPinAttempts P) w
      (fun _ w' => w'.account = ⟨w.account.tries - 1, w.account.boot - 1, w.account.checks, w.account.issued⟩)
      fun _ _ => False := by
  have hb : 0 < w.pinBootAttemptsLeft := h.2
  have hopen : clientPinIsLocked { w with pinBootAttemptsLeft := w.pinBootAttemptsLeft - 1 } = false := by
    have ht : 0 < w.state.remainingTries := h.1
    simpa [clientPinIsLocked] using ht
  unfold decrementPinAttempts
  rw [ends_bind, ends_modify, if_pos hb, ends_bind, ends_get, hopen, Bool.not_false, if_pos rfl,
    ends_bind, ends_modify, ends_bind]
  refine ends_of_ok (authenticatorWriteState_eq _) ?_
  rw [ends_bind, ends_get, ends_ite]
  refine ⟨fun _ => ?_, fun _ => flushed_account _⟩
  exact ends_of_ok (authenticatorWriteState_eq _) ((flushed_account _).trans (flushed_account _))

/-- `reset_pin_attempts`: with no failure on the account the boot counter stays as it is. -/
theorem resetPinAttempts_account (w : World) :
    Ends (resetPinAttempts P) w
      (fun _ w' => ∃ boot,
        boot = (if w.account.tries = pinLockoutAttempts then w.account.boot else pinBootAttempts) ∧
        w'.account = ⟨pinLockoutAttempts, boot, w.account.checks, w.account.issued⟩)
      fun _ _ => False := by
  unfold resetPinAttempts
  rw [ends_bind, ends_get, ends_ite]
  constructor
  · intro h
    exact ends_of_ok (authenticatorWriteState_eq _) ⟨_, (if_neg h).symm, flushed_account _⟩
  · intro h
    refine ⟨_, (if_pos (not_not.mp h)).symm, ?_⟩
    simp only [World.account, not_not.mp h]

theorem keeps_account_storePin {pin : List UInt8} : Keeps World.account (storePin P pin) :=
  (keeps_account touches_ctapGenerateRng (by decide)).bind fun _ =>
    Keeps.bind (fun _ => rfl) fun _ =>
      keeps_account (touches_authenticatorWriteState (P := P)) (by decide)

/-- The branch of a wrong PIN. -/
theorem pinMismatch_account {α : Type} {w : World} (proto : UInt8) (h : w.account.Unlocked) :
    Ends (pinMismatch P proto : CtapM α) w (fun _ _ => False) fun e w' => ∀ s, e = .status s →
      w'.account = ⟨w.account.tries - 1, w.account.boot - 1, w.account.checks, w.account.issued⟩ := by
  have hkey : Keeps World.account (regenerateKeyAgreement (slotOf proto)) :=
    keeps_account touches_regenerateKeyAgreement (by decide)
  unfold pinMismatch
  rw [ends_bind]
  obtain ⟨w₁, hok⟩ := regenerateKeyAgreement_ok (slotOf proto) w
  have hacc : w₁.account = w.account := hkey.ok hok
  refine ends_of_ok hok ?_
  rw [ends_bind]
  refine (decrementPinAttempts_account (hacc.symm ▸ h)).mono (fun _ w₂ h₂ => ?_) fun _ _ h => h.elim
  rw [hacc] at h₂
  simp only [ends_bind, ends_get, ends_failIf, ends_failWith]
  exact ⟨fun _ _ _ => h₂, fun _ => ⟨fun _ _ _ => h₂, fun _ _ _ => h₂⟩⟩

/-- A PIN is compared: the two branches of `add_enc_pinUvAuthToken` and `update_pin_if_verified`. -/
theorem accounts_compare {α : Type} {h : Bytes 16} {proto : UInt8} {k : CtapM α}
    (hk : Keeps World.counters k) :
    AccountsWhen PinAccount.Unlocked (do
      if ← verifyAgainstStoredPin P h then
        resetPinAttempts P
        k
      else pinMismatch P proto) := by
  intro w hw
  let matched : Bool := h = P.prims.aesCbcDecrypt P.keyPinEnc w.state.pinHashIv w.state.pinHashEnc
  let w₁ : World := { w with trace := w.trace ++ [.pinCompared matched] }
  have hacc : w₁.account
      = ⟨w.account.tries, w.account.boot, w.account.checks ++ [matched], w.account.issued⟩ := by
    simp [World.account, World.pinChecks, World.issued, w₁, Event.pinCheck?, Event.isIssue]
  have hopen : w₁.account.Unlocked := by rw [hacc]; exact hw
  rw [ends_bind]
  refine ends_of_ok (show verifyAgainstStoredPin P h w = .ok matched w₁ from rfl) ?_
  rw [ends_ite]
  constructor
  · intro hm
    rw [ends_bind]
    refine (resetPinAttempts_account w₁).mono (fun _ w₂ ⟨boot, hb, h₂⟩ => ?_) fun _ _ h => h.elim
    rw [hacc, hm] at h₂ hb
    have hdone {w₃ : World} (hw₃ : w₃.counters = w₂.counters) : Accounted w.account w₃.account := by
      have h₃ : w₃.account = ⟨pinLockoutAttempts, boot, w.account.checks ++ [true], w₃.issued⟩ := by
        obtain ⟨ht, hb, hc⟩ : _ ∧ _ ∧ _ := by simpa [World.counters] using hw₃
        simp only [World.account, PinAccount.mk.injEq] at h₂ ⊢
        exact ⟨ht.trans h₂.1, hb.trans h₂.2.1, hc.trans h₂.2.2.1, trivial⟩
      rw [h₃]
      exact .matched hw boot hb _
    exact ends_of_runs (fun _ w₃ hok => hdone (hk.ok hok)) fun _ w₃ herr _ _ => hdone (hk.error herr)
  · intro hm
    refine (pinMismatch_account proto hopen).mono (fun _ _ h => h.elim) fun e w₂ h₂ s hs => ?_
    rw [h₂ s hs, hacc, Bool.eq_false_iff.mpr hm]
    exact .failed hw

/-! ## The command -/

theorem accounts_updatePinIfVerified {n : Bytes 80} {len : UInt8} {pub : Bytes 64} {a : Bytes 32}
    {h : Option (Bytes 32)} {proto : UInt8} :
    AccountsWhen PinAccount.Unlocked (updatePinIfVerified P n len pub a h proto) := by
  refine accounts_bind (keeps_account touches_failIf (S := []) (by decide)) fun _ =>
    accounts_bind (keeps_account touches_ecdh (by decide)) fun (k, _) =>
    accounts_bind (keeps_account touches_failIf (S := []) (by decide)) fun _ =>
    accounts_bind (keeps_account touches_ctapCheck (S := []) (by decide)) fun _ =>
    accounts_bind (keeps_account touches_failIf (S := []) (by decide)) fun _ =>
    accounts_bind_keeps ?_ fun _ => keeps_account_storePin
  cases h with
  | none => exact accounts_of_keeps fun _ => rfl
  | some h =>
    refine accounts_bind (fun _ => rfl) fun _ => accounts_ite (fun _ => ?_) fun _ =>
      accounts_of_keeps fun _ => rfl
    refine accounts_bind (keeps_account touches_ctapCheck (S := []) (by decide)) fun _ =>
      accounts_compare ?_
    exact (keeps_counters touches_resetPinUvAuthToken (by decide)).bind fun _ =>
      keeps_counters touches_resetPinUvAuthToken (by decide)

theorem accounts_issueToken {CP : ClientPin} {perms : UInt8} {rp : List UInt8} :
    AccountsWhen PinAccount.Unlocked (issueToken P CP perms rp) := by
  have henc {α : Type} {x : EncM α} : Keeps World.account (encode x) :=
    keeps_account touches_encode (S := []) (by decide)
  refine accounts_bind henc fun _ => accounts_bind henc fun _ => accounts_bind_keeps ?_ fun _ =>
    henc.bind fun _ => henc.bind fun _ _ => rfl
  refine accounts_bind (keeps_account touches_ecdh (by decide)) fun (k, _) =>
    accounts_bind (keeps_account touches_ctapCheck (S := []) (by decide)) fun _ => accounts_compare ?_
  exact (keeps_counters touches_resetPinUvAuthToken (by decide)).bind fun _ =>
    (keeps_counters touches_resetPinUvAuthToken (by decide)).bind fun _ =>
    (keeps_counters touches_beginUsingPinUvAuthToken (by decide)).bind fun _ =>
    (keeps_counters touches_associatePermissionsRpId (by decide)).bind fun _ =>
    Keeps.bind (fun _ => rfl) fun _ => (keeps_counters touches_emit_tokenIssued (by decide)).bind fun _ =>
    keeps_counters touches_encryptPinUvAuthToken (by decide)

/-- Behind the two lock checks. -/
theorem accounts_of_lock_checks {α : Type} {m : CtapM α} (hm : AccountsWhen PinAccount.Unlocked m) :
    AccountsWhen (fun _ => True) (do
      failIf (clientPinIsLocked (← get)) .pinBlocked
      failIf (clientPinIsBootLocked (← get)) .pinAuthBlocked
      m) := by
  intro w _
  simp only [ends_bind, ends_get, ends_failIf]
  refine ⟨fun _ _ _ => .quiet, fun ht => ⟨fun _ _ _ => .quiet, fun hb => hm w ⟨?_, ?_⟩⟩⟩
  · show 0 < w.state.remainingTries
    simpa [clientPinIsLocked] using ht
  · show 0 < w.pinBootAttemptsLeft
    simpa [clientPinIsBootLocked] using hb

/-- authenticatorClientPIN keeps the account in order. -/
theorem accounts_ctapClientPin {request : List UInt8} :
    AccountsWhen (fun _ => True) (ctapClientPin P request) := by
  have hfail {c : Prop} [Decidable c] {s : CtapError} : Keeps World.account (failIf c s) :=
    keeps_account touches_failIf (S := []) (by decide)
  have hget : Keeps World.account (get : CtapM World) := fun _ => rfl
  refine accounts_bind (keeps_account touches_ctapCheck (S := []) (by decide)) fun CP =>
    accounts_bind hfail fun _ => accounts_bind hfail fun _ =>
    accounts_ite (fun _ => accounts_of_touches touches_getPinRetries (by decide)) fun _ =>
    accounts_ite (fun _ => accounts_of_touches touches_getKeyAgreement (by decide)) fun _ =>
    accounts_ite (fun _ => accounts_of_keeps ?_) fun _ => accounts_of_lock_checks ?_
  · refine hfail.bind fun _ => hget.bind fun _ => hfail.bind fun _ =>
      Keeps.bind (hfail.bind fun _ => ?_) fun _ _ => rfl
    exact (keeps_account touches_ecdh (by decide)).bind fun (k, _) => hfail.bind fun _ =>
      (keeps_account touches_ctapCheck (S := []) (by decide)).bind fun _ => hfail.bind fun _ =>
      Keeps.bind (fun _ => rfl) fun _ => keeps_account_storePin
  · refine accounts_ite (fun _ => accounts_bind hget fun _ => accounts_bind hfail fun _ =>
      accounts_bind hfail fun _ => accounts_bind_keeps accounts_updatePinIfVerified fun _ _ => rfl)
      fun _ => ?_
    refine accounts_ite (fun _ => accounts_bind hget fun _ => accounts_bind hfail fun _ =>
      accounts_bind hfail fun _ => accounts_bind hfail fun _ => accounts_issueToken) fun _ => ?_
    refine accounts_ite (fun _ => accounts_bind hget fun _ => accounts_bind hfail fun _ =>
      accounts_bind hfail fun _ => accounts_bind hfail fun _ => accounts_bind hfail fun _ =>
      accounts_bind hfail fun _ => accounts_issueToken) fun _ => ?_
    exact accounts_of_keeps fun _ => rfl

/-! ## Requests -/

/-- The commands apart from a reset. -/
theorem accounts_dispatch {c : Command} (hc : c ≠ .reset) (request : List UInt8) :
    AccountsWhen (fun _ => True) (dispatch P c request) := by
  have hfail {c : Prop} [Decidable c] {s : CtapError} : Keeps World.account (failIf c s) :=
    keeps_account touches_failIf (S := []) (by decide)
  have hget : Keeps World.account (get : CtapM World) := fun _ => rfl
  refine accounts_bind hget fun _ => accounts_bind hfail fun _ => accounts_bind hget fun _ =>
    accounts_bind hfail fun _ => ?_
  cases c with
  | makeCredential => exact accounts_of_touches touches_ctapMakeCredential (by decide)
  | getAssertion => exact accounts_of_touches touches_ctapGetAssertion (by decide)
  | getInfo => exact accounts_of_touches touches_ctapGetInfo (by decide)
  | clientPin => exact accounts_ctapClientPin
  | reset => exact absurd rfl hc
  | getNextAssertion =>
    exact accounts_bind hget fun _ => accounts_bind hfail fun _ =>
      accounts_of_touches touches_ctapGetNextAssertion (by decide)
  | credentialManagement => exact accounts_of_touches touches_ctapCredentialManagement (by decide)
  | selection => exact accounts_of_touches touches_ctapSelection (by decide)
  | invalid => exact accounts_of_keeps fun _ => rfl

theorem dispatch_reset_eq {request : List UInt8} {w : World} :
    dispatch P .reset request w = ctapReset P w := rfl

/-- A successful reset. -/
def Served.resets (r : Served) : Bool := commandOf r.cmd = .reset ∧ r.status = .ok

/-- The account at the start of a request. -/
def World.newAccount (w : World) : PinAccount := { w.account with checks := [], issued := [] }

/-- A request on the account: a reset clears the persistent counter. -/
theorem Served.Valid.account {r : Served} (hv : r.Valid P) :
    if r.resets then r.after.account = { r.before.newAccount with tries := pinLockoutAttempts }
    else Accounted r.before.newAccount r.after.account := by
  obtain ⟨inputs, hr⟩ := hv
  obtain ⟨w₁, hafter, hd⟩ := ctapRequest_cases hr
  have hacc : r.after.account = w₁.account := by rw [hafter]; rfl
  have hstart : (r.before.withInputs inputs).account = r.before.newAccount := rfl
  rw [hacc, ← hstart]
  by_cases hc : commandOf r.cmd = .reset
  · have hends := ctapReset_ends (P := P) (r.before.withInputs inputs)
    rw [hc] at hd
    rcases hd with ⟨hok, hd⟩ | ⟨e, herr, -, hd⟩
    · have hreset := hends.ok hd
      obtain ⟨salt, hstate⟩ := hreset.state
      have hboot : w₁.pinBootAttemptsLeft = r.before.pinBootAttemptsLeft :=
        hreset.others .boot (by decide)
      have hchecks : w₁.pinChecks = [] := hreset.others .pinChecks (by decide)
      rw [if_pos (by simp [Served.resets, hc, hok])]
      have hissued : w₁.issued = [] := hreset.others .issued (by decide)
      simp only [World.account, hstate, hboot, hchecks, hissued]
      rfl
    · have hview := hends.error hd
      rw [if_neg (by simp [Served.resets, herr])]
      rw [World.account_eq (World.counters_eq (hview .pinState (by decide)) (hview .boot (by decide))
        (hview .pinChecks (by decide))) (hview .issued (by decide))]
      exact .quiet
  · rw [if_neg (by simp [Served.resets, hc])]
    have hends := accounts_dispatch (P := P) hc r.request (r.before.withInputs inputs) trivial
    rcases hd with ⟨-, hd⟩ | ⟨e, -, -, hd⟩
    · exact hends.ok hd
    · exact hends.error hd e rfl

end Counting

/-! ## Histories -/

/-- What matters for the counters, in the order in which it happened. -/
inductive PinMark
  /-- A comparison that failed. -/
  | failed
  /-- A correct PIN or a successful reset. -/
  | cleared
  /-- A power cycle. -/
  | powered
  deriving DecidableEq

/-- The marks of a request, the newest first. -/
def Served.marks (r : Served) : List PinMark :=
  (if r.resets then [.cleared] else [])
    ++ (r.after.pinChecks.map fun matched => if matched then .cleared else .failed).reverse

/-- The marks of a history, the newest first. -/
def pinMarks : List Entry → List PinMark
  | [] => []
  | .boot _ :: h => .powered :: pinMarks h
  | .request r :: h => r.marks ++ pinMarks h

/-- What came after the last correct PIN entry or successful reset. -/
def sinceCleared (marks : List PinMark) : List PinMark := marks.takeWhile (· ≠ .cleared)

/-- The part of it in the current power cycle. -/
def sincePowered (marks : List PinMark) : List PinMark := (sinceCleared marks).takeWhile (· ≠ .powered)

/-- Failed comparisons. -/
def failures (marks : List PinMark) : Nat := marks.count .failed

section Histories

variable {P : Platform}

/-- The counters cover the failures: in all since the last success, in this power cycle, and in each
power cycle since. -/
structure Covered (marks : List PinMark) (w : World) : Prop where
  tries_nonneg : 0 ≤ w.state.remainingTries.toInt
  boot_nonneg : 0 ≤ w.pinBootAttemptsLeft.toInt
  tries : w.state.remainingTries.toInt + failures (sinceCleared marks) ≤ 8
  boot : w.pinBootAttemptsLeft.toInt + failures (sincePowered marks) ≤ 3
  cycles : ∀ cycle, cycle <:+: sinceCleared marks → .powered ∉ cycle → failures cycle ≤ 3

/-- A stretch without a power cycle at the newest end is in the current one. -/
theorem failures_le_sincePowered {marks cycle : List PinMark} (h : cycle <+: sinceCleared marks)
    (hp : .powered ∉ cycle) : failures cycle ≤ failures (sincePowered marks) := by
  obtain ⟨rest, hrest⟩ := h
  unfold sincePowered
  have hall : ∀ m ∈ cycle, decide (m ≠ .powered) = true := by
    intro m hm
    rw [decide_eq_true_iff]
    rintro rfl
    exact hp hm
  rw [← hrest, List.takeWhile_append_of_pos hall]
  unfold failures
  rw [List.count_append]
  exact Nat.le_add_right _ _

theorem Covered.cleared {marks : List PinMark} {w : World} (ht : w.state.remainingTries = 8)
    (h₀ : 0 ≤ w.pinBootAttemptsLeft.toInt) (h₃ : w.pinBootAttemptsLeft.toInt ≤ 3) :
    Covered (.cleared :: marks) w := by
  have hs : sinceCleared (.cleared :: marks) = [] := by simp [sinceCleared]
  refine ⟨by rw [ht]; decide, h₀, by rw [ht, hs]; decide, ?_, ?_⟩
  · simpa [sincePowered, hs, failures] using h₃
  · intro cycle hc _
    rw [hs, List.infix_nil] at hc
    simp [hc, failures]

theorem Covered.nil {w : World} (ht : w.state.remainingTries = 8) (hb : w.pinBootAttemptsLeft = 3) :
    Covered [] w := by
  refine ⟨by rw [ht]; decide, by rw [hb]; decide, by rw [ht]; decide, by rw [hb]; decide, ?_⟩
  intro cycle hc _
  obtain rfl : cycle = [] := List.infix_nil.mp hc
  decide

theorem Covered.powered {marks : List PinMark} {w w' : World} (h : Covered marks w)
    (ht : w'.state.remainingTries = w.state.remainingTries) (hb : w'.pinBootAttemptsLeft = 3) :
    Covered (.powered :: marks) w' := by
  have hs : sinceCleared (.powered :: marks) = .powered :: sinceCleared marks := by simp [sinceCleared]
  refine ⟨by rw [ht]; exact h.tries_nonneg, by rw [hb]; decide, ?_, ?_, ?_⟩
  · rw [ht, hs]
    simpa [failures] using h.tries
  · rw [hb]
    simp [sincePowered, hs, failures]
  · intro cycle hc hp
    rw [hs, List.infix_cons_iff] at hc
    rcases hc with hc | hc
    · have hnil : cycle = [] := by
        cases cycle with
        | nil => rfl
        | cons m l => exact absurd (by simp [(List.cons_prefix_cons.mp hc).1]) hp
      simp [hnil, failures]
    · exact h.cycles cycle hc hp

theorem toInt_sub_one {x : Int8} (h : 0 < x) : 0 < x.toInt ∧ (x - 1).toInt = x.toInt - 1 := by
  have hpos : 0 < x.toInt := Int8.lt_iff_toInt_lt.mp h
  have hlt := x.toInt_lt
  refine ⟨hpos, ?_⟩
  rw [Int8.toInt_sub, show (1 : Int8).toInt = 1 from rfl, Int.bmod_eq_of_le] <;> omega

theorem Covered.failed {marks : List PinMark} {w w' : World} (h : Covered marks w)
    (ht : 0 < w.state.remainingTries) (hb : 0 < w.pinBootAttemptsLeft)
    (ht' : w'.state.remainingTries = w.state.remainingTries - 1)
    (hb' : w'.pinBootAttemptsLeft = w.pinBootAttemptsLeft - 1) : Covered (.failed :: marks) w' := by
  have hs : sinceCleared (.failed :: marks) = .failed :: sinceCleared marks := by simp [sinceCleared]
  have hp : sincePowered (.failed :: marks) = .failed :: sincePowered marks := by
    simp [sincePowered, hs]
  have h₁ := toInt_sub_one ht
  have h₂ := toInt_sub_one hb
  have h₃ := h.tries
  have h₄ := h.boot
  have hf (l : List PinMark) : failures (.failed :: l) = failures l + 1 := by simp [failures]
  have hboot : w'.pinBootAttemptsLeft.toInt + failures (sincePowered (.failed :: marks)) ≤ 3 := by
    rw [hb', hp, hf]
    push_cast
    omega
  have hboot₀ : 0 ≤ w'.pinBootAttemptsLeft.toInt := by rw [hb']; omega
  refine ⟨by rw [ht']; omega, hboot₀, ?_, hboot, ?_⟩
  · rw [ht', hs, hf]
    push_cast
    omega
  · intro cycle hc hno
    rw [hs, List.infix_cons_iff] at hc
    rcases hc with hc | hc
    · rw [← hs] at hc
      have := failures_le_sincePowered hc hno
      omega
    · exact h.cycles cycle hc hno

/-- A request keeps the counters over the failures. -/
theorem Covered.request {marks : List PinMark} {r : Served} (h : Covered marks r.before)
    (hv : r.Valid P) : Covered (r.marks ++ marks) r.after := by
  have hacc := hv.account
  have hboot₃ : r.before.pinBootAttemptsLeft.toInt ≤ 3 := by
    have := h.boot
    omega
  by_cases hr : r.resets = true
  · rw [if_pos hr] at hacc
    have hmarks : r.marks = [.cleared] := by
      have : r.after.pinChecks = [] := congrArg PinAccount.checks hacc
      simp [Served.marks, hr, this]
    have hb : r.after.pinBootAttemptsLeft = r.before.pinBootAttemptsLeft := congrArg PinAccount.boot hacc
    rw [hmarks]
    exact .cleared (congrArg PinAccount.tries hacc) (hb ▸ h.boot_nonneg) (hb ▸ hboot₃)
  rw [if_neg hr] at hacc
  have hmarks (l : List Bool) (hl : r.after.account.checks = l) :
      r.marks = (l.map fun matched => if matched then PinMark.cleared else .failed).reverse := by
    have : r.after.pinChecks = l := hl
    simp [Served.marks, hr, this]
  generalize ha : r.after.account = a at hacc
  have ht : r.after.state.remainingTries = a.tries := congrArg PinAccount.tries ha
  have hb : r.after.pinBootAttemptsLeft = a.boot := congrArg PinAccount.boot ha
  cases hacc with
  | quiet =>
    rw [hmarks [] (congrArg PinAccount.checks ha)]
    exact ⟨by rw [ht]; exact h.tries_nonneg, by rw [hb]; exact h.boot_nonneg, by rw [ht]; exact h.tries,
      by rw [hb]; exact h.boot, h.cycles⟩
  | failed hu =>
    rw [hmarks [false] (congrArg PinAccount.checks ha)]
    exact h.failed hu.1 hu.2 ht hb
  | matched hu boot hboot issued =>
    rw [hmarks [true] (congrArg PinAccount.checks ha)]
    have hbound : 0 ≤ boot.toInt ∧ boot.toInt ≤ 3 := by
      split_ifs at hboot
      · rw [hboot]
        exact ⟨h.boot_nonneg, hboot₃⟩
      · rw [hboot]
        decide
    exact .cleared ht (by rw [hb]; exact hbound.1) (by rw [hb]; exact hbound.2)

theorem started_tries (s : AuthState) (v : UInt32) : (s.started v).remainingTries = s.remainingTries := by
  unfold AuthState.started
  split <;> rfl

/-- In every run the counters cover the failures. -/
theorem Run.covered {h : List Entry} {w : World} (hr : Run P h w) : Covered (pinMarks h) w := by
  induction hr with
  | start hw hb =>
    obtain ⟨salt, hstate, -, -, hst⟩ := hb.of_new hw
    exact (Covered.nil (by rw [hstate]; rfl) hst.boot).powered rfl hst.boot
  | request hr r hv hb ih => exact (hb ▸ ih : Covered _ r.before).request hv
  | boot hr hb ih =>
    obtain ⟨hstate, -, -, -, hst⟩ := hb.of_stored hr.synced.file hr.synced.version
    exact ih.powered (by rw [hstate, started_tries]) hst.boot

/-! ## The lock -/

/-- Nothing that a PIN protects: no comparison, no token, no operation on credentials. -/
structure Served.Refused (r : Served) : Prop where
  compares : r.after.pinChecks = []
  issues : r.after.issued = []
  operates : commandOf r.cmd ∈ [.makeCredential, .getAssertion, .credentialManagement] → r.status ≠ .ok

theorem dispatch_locked {c : Command} {request : List UInt8} {w : World} (hc : c.checksLock = true)
    (hw : w.state.remainingTries = 0) :
    dispatch P c request w = .error (.status .pinBlocked) w := by
  have hlocked : clientPinIsLocked w = true := by simp [clientPinIsLocked, hw]
  unfold dispatch
  rw [bind_of_ok run_get]
  have hfail : failIf (c.checksLock = true ∧ clientPinIsLocked w = true) .pinBlocked w
      = .error (.status .pinBlocked) w := by
    unfold failIf
    rw [if_pos ⟨hc, hlocked⟩]
    rfl
  exact bind_eq_error.mpr (.inl hfail)

/-- A locked device stays locked. -/
theorem Served.Valid.locked {r : Served} (hv : r.Valid P) (hl : r.before.state.remainingTries = 0)
    (hr : r.resets = false) : r.after.state.remainingTries = 0 ∧ r.Refused := by
  have hacc := hv.account
  rw [if_neg (by simp [hr])] at hacc
  have hno : ¬ r.before.newAccount.Unlocked := by
    rintro ⟨h, -⟩
    change 0 < r.before.state.remainingTries at h
    rw [hl] at h
    exact absurd h (by decide)
  generalize ha : r.after.account = a at hacc
  cases hacc with
  | failed hu => exact absurd hu hno
  | matched hu => exact absurd hu hno
  | quiet =>
    refine ⟨(congrArg PinAccount.tries ha).trans hl, congrArg PinAccount.checks ha,
      congrArg PinAccount.issued ha, fun hc hok => ?_⟩
    obtain ⟨inputs, hreq⟩ := hv
    obtain ⟨w₁, -, hd⟩ := ctapRequest_cases hreq
    have hlock : (commandOf r.cmd).checksLock = true := by
      simp only [List.mem_cons, List.not_mem_nil, or_false] at hc
      rcases hc with h | h | h <;> rw [h] <;> rfl
    rw [dispatch_locked (w := r.before.withInputs inputs) hlock hl, hok] at hd
    simp at hd

theorem Run.locked {h₁ h₂ : List Entry} {w w₂ : World} (hr : Run P (h₁ ++ h₂) w) (hr₂ : Run P h₂ w₂)
    (hl : w₂.state.remainingTries = 0) (hno : ∀ r, Entry.request r ∈ h₁ → r.resets = false) :
    w.state.remainingTries = 0 ∧ ∀ r, Entry.request r ∈ h₁ → r.Refused := by
  induction h₁ generalizing w with
  | nil => exact ⟨by rw [hr.unique hr₂]; exact hl, by simp⟩
  | cons e h₁ ih =>
    generalize hh : e :: h₁ ++ h₂ = h at hr
    cases hr with
    | start hw hb =>
      obtain ⟨-, hnil⟩ := List.cons.inj hh
      obtain ⟨-, rfl⟩ := List.append_eq_nil_iff.mp hnil
      exact absurd hr₂ Run.ne_nil
    | request hr r hv hb =>
      obtain ⟨rfl, rfl⟩ := List.cons.inj hh
      obtain ⟨hw, hall⟩ := ih hr fun r hr => hno r (List.mem_cons_of_mem _ hr)
      obtain ⟨hl', href⟩ := hv.locked (hb ▸ hw) (hno r (List.mem_cons_self ..))
      refine ⟨hl', fun r' hr' => ?_⟩
      rcases List.mem_cons.mp hr' with heq | hmem
      · cases heq
        exact href
      · exact hall r' hmem
    | boot hr hb =>
      obtain ⟨rfl, rfl⟩ := List.cons.inj hh
      obtain ⟨hw, hall⟩ := ih hr fun r hr => hno r (List.mem_cons_of_mem _ hr)
      obtain ⟨hstate, -⟩ := hb.of_stored hr.synced.file hr.synced.version
      refine ⟨by rw [hstate, started_tries]; exact hw, fun r' hr' => hall r' ?_⟩
      simpa using hr'

/-- Every run, with power cycles between commands: since the last correct PIN entry or successful
reset at most eight comparisons failed, at most three of them in one power cycle; both counters stay
in their ranges; and behind a state with no attempts left nothing that a PIN protects succeeds before
a successful reset. -/
theorem pin_attempts_bounded {h : List Entry} {w : World} (hr : Run P h w) :
    (0 ≤ w.state.remainingTries.toInt ∧ w.state.remainingTries.toInt ≤ 8) ∧
    (0 ≤ w.pinBootAttemptsLeft.toInt ∧ w.pinBootAttemptsLeft.toInt ≤ 3) ∧
    failures (sinceCleared (pinMarks h)) ≤ 8 ∧
    (∀ cycle, cycle <:+: sinceCleared (pinMarks h) → .powered ∉ cycle → failures cycle ≤ 3) ∧
    ∀ h₁ h₂ w₂, h = h₁ ++ h₂ → Run P h₂ w₂ → w₂.state.remainingTries = 0 →
      (∀ r, Entry.request r ∈ h₁ → r.resets = false) → ∀ r, Entry.request r ∈ h₁ → r.Refused := by
  have hc := hr.covered
  have h₁ := hc.tries
  have h₂ := hc.boot
  have h₃ := hc.tries_nonneg
  have h₄ := hc.boot_nonneg
  refine ⟨⟨h₃, by omega⟩, ⟨h₄, by omega⟩, by omega, hc.cycles, ?_⟩
  rintro h₁ h₂ w₂ rfl hr₂ hl hno
  exact (hr.locked hr₂ hl hno).2

/-- A PIN is set, entered, and then entered wrong. -/
theorem pin_attempts_bounded_one_failure :
    ∃ h w, Run simPlatform h w ∧ failures (sinceCleared (pinMarks h)) = 1 ∧
      (0 ≤ w.state.remainingTries.toInt ∧ w.state.remainingTries.toInt ≤ 8) := by
  have heval : ((serveAll simPlatform simStart [touched 6 (setPinRequest "1234"),
      touched 6 (getTokenRequest "1234" 1 "a"), touched 6 (getTokenRequest "0000" 1 "a")]).map
      fun x => failures (sinceCleared (pinMarks (x.2.map .request ++ [.boot simStart])))) = some 1 := by
    decide +kernel
  obtain ⟨⟨w, rs⟩, hrs, hfail⟩ := Option.map_eq_some_iff.mp heval
  have hrun := serveAll_run run_simStart hrs
  exact ⟨_, w, hrun, hfail, (pin_attempts_bounded hrun).1⟩

end Histories

end TkeyFido2
