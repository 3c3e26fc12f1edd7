import TkeyFido2.Ctap.Request
import TkeyFido2.Ctap.U2f
import TkeyFido2.Cbor.RoundTrip

/-!
# The size of a response

Every response is written through an encoder of `CTAP_RESPONSE_BUFFER_SIZE` bytes or through
`u2f_response_writeback`, so none is longer than the buffer.
-/

namespace TkeyFido2

open Cbor Prog

/-! ## Encoders do not outgrow their buffer -/

namespace Cbor.Encoder

variable {e e' : Encoder} {v k : Nat}

/-- The size of the buffer behind an encoder. -/
def capacity (e : Encoder) : Nat := e.out.length + e.room

@[grind →]
theorem capacity_append {data : List UInt8} (h : e.append data = .ok e') : e'.capacity = e.capacity := by
  unfold append at h
  split_ifs at h with hroom
  obtain rfl := Except.ok.inj h
  simp only [capacity, List.length_append]
  omega

@[grind →]
theorem capacity_number (h : e.number v k = .ok e') : e'.capacity = e.capacity := by
  unfold number at h
  exact (capacity_append h).trans rfl

@[grind →]
theorem capacity_uint (h : e.uint v = .ok e') : e'.capacity = e.capacity := capacity_number h

@[grind →]
theorem capacity_int {v : Int} (h : e.int v = .ok e') : e'.capacity = e.capacity := by
  unfold int at h
  split_ifs at h
  · exact capacity_number h
  · exact capacity_number h

@[grind →]
theorem capacity_negativeInt (h : e.negativeInt v = .ok e') : e'.capacity = e.capacity :=
  capacity_number h

@[grind →]
theorem capacity_boolean {b : Bool} (h : e.boolean b = .ok e') : e'.capacity = e.capacity :=
  capacity_number h

theorem capacity_string {s : List UInt8} (h : e.string s k = .ok e') : e'.capacity = e.capacity := by
  unfold string at h
  obtain ⟨e₁, h₁, h₂⟩ := except_bind_eq_ok.mp h
  exact (capacity_append h₂).trans (capacity_number h₁)

@[grind →]
theorem capacity_byteString {s : List UInt8} (h : e.byteString s = .ok e') : e'.capacity = e.capacity :=
  capacity_string h

@[grind →]
theorem capacity_textString {s : List UInt8} (h : e.textString s = .ok e') : e'.capacity = e.capacity :=
  capacity_string h

@[grind →]
theorem capacity_createArray (h : e.createArray k = .ok e') : e'.capacity = e.capacity := by
  unfold createArray at h
  exact (capacity_append h).trans rfl

@[grind →]
theorem capacity_createMap (h : e.createMap k = .ok e') : e'.capacity = e.capacity := by
  unfold createMap at h
  exact (capacity_append h).trans rfl

/-- A closed container hands its buffer back. -/
@[grind →]
theorem capacity_close {inner : Encoder} (h : e.close inner = .ok e') :
    e'.capacity = inner.capacity := by
  unfold close at h
  split_ifs at h
  obtain rfl := Except.ok.inj h
  rfl

theorem length_out_le (e : Encoder) : e.out.length ≤ e.capacity := Nat.le_add_right _ _

end Cbor.Encoder

open Encoder

variable {α : Type}

section Items

variable {map e : Encoder}

@[grind →]
theorem capacity_coseKeyAdd {x y : Bytes 32} {alg : CoseAlg} (h : coseKeyAdd map x y alg = .ok e) :
    e.capacity = map.capacity := by
  simp only [coseKeyAdd, except_bind_eq_ok] at h
  grind [except_bind_eq_ok, except_pure_eq_ok]

@[grind →]
theorem capacity_descriptor {cred : CredentialDescriptor}
    (h : ctapCborEncodeCredentialDescriptor map cred = .ok e) : e.capacity = map.capacity := by
  simp only [ctapCborEncodeCredentialDescriptor, except_bind_eq_ok] at h
  grind [except_bind_eq_ok, except_pure_eq_ok]

@[grind →]
theorem capacity_userEntity {user : UserEntity} {verified : Bool}
    (h : ctapCborEncodeUserEntity map user verified = .ok e) : e.capacity = map.capacity := by
  simp only [ctapCborEncodeUserEntity, except_bind_eq_ok] at h
  obtain ⟨e₁, h₁, e₂, h₂, e₃, h₃, h⟩ := h
  split_ifs at h
  · simp only [except_bind_eq_ok] at h
    grind
  · simp only [except_bind_eq_ok, except_pure_eq_ok] at h
    grind

@[grind →]
theorem capacity_encodeTotal {key : Int} {total : Nat} (h : encodeTotal map key total = .ok e) :
    e.capacity = map.capacity := by
  simp only [encodeTotal] at h
  grind [except_bind_eq_ok, except_pure_eq_ok]

end Items

/-! ## Responses -/

/-- A response that fits the buffer. -/
def Fits (response : List UInt8) : Prop := response.length ≤ ctapResponseBufferSize

theorem fits_nil : Fits [] := Nat.zero_le _

theorem fits_of_capacity {e : Encoder} (h : e.capacity = ctapResponseBufferSize) : Fits e.out :=
  e.length_out_le.trans h.le

theorem yields_encode {x : EncM α} : Yields (fun a => x = .ok a) (encode x) := by
  intro w a w' h
  unfold encode at h
  obtain ⟨hx, -⟩ := ctapCheck_eq_ok.mp h
  cases x with
  | ok b => exact congrArg _ (Except.ok.inj hx)
  | error e => cases hx

/-- A command that fails returns nothing. -/
theorem yields_failWith {Q : α → Prop} {s : CtapError} : Yields Q (failWith s : CtapM α) := yields_throw

section Commands

variable {P : Platform}

theorem capacity_responseEncoder : responseEncoder.capacity = ctapResponseBufferSize := rfl

theorem getPinRetries_fits : Yields Fits getPinRetries := by
  unfold getPinRetries
  refine yields_bind fun w => ?_
  refine yields_encode.bind fun e₁ h₁ => ?_
  refine yields_encode.bind fun e₂ h₂ => ?_
  refine yields_encode.bind fun e₃ h₃ => ?_
  refine yields_encode.bind fun e₄ h₄ => ?_
  refine yields_encode.bind fun e₅ h₅ => ?_
  refine yields_encode.bind fun e₆ h₆ => ?_
  exact yields_pure (fits_of_capacity (by grind [capacity_responseEncoder]))

theorem getKeyAgreement_fits {pinProtocol : UInt8} : Yields Fits (getKeyAgreement P pinProtocol) := by
  unfold getKeyAgreement
  refine yields_encode.bind fun e₁ h₁ => ?_
  refine yields_encode.bind fun e₂ h₂ => ?_
  refine yields_bind fun _ => yields_bind fun _ => yields_bind fun _ => ?_
  refine yields_encode.bind fun e₃ h₃ => ?_
  refine yields_encode.bind fun e₄ h₄ => ?_
  exact yields_pure (fits_of_capacity (by grind [capacity_responseEncoder]))

theorem issueToken_fits {CP : ClientPin} {permissions : UInt8} {rpId : List UInt8} :
    Yields Fits (issueToken P CP permissions rpId) := by
  unfold issueToken
  refine yields_encode.bind fun e₁ h₁ => ?_
  refine yields_encode.bind fun e₂ h₂ => yields_bind fun _ => ?_
  refine yields_encode.bind fun e₃ h₃ => ?_
  refine yields_encode.bind fun e₄ h₄ => ?_
  exact yields_pure (fits_of_capacity (by grind [capacity_responseEncoder]))

theorem ctapClientPin_fits {request : List UInt8} : Yields Fits (ctapClientPin P request) := by
  unfold ctapClientPin
  refine yields_bind fun CP => yields_bind fun _ => yields_bind fun _ => ?_
  refine yields_ite getPinRetries_fits (yields_ite getKeyAgreement_fits (yields_ite ?_ ?_))
  · exact yields_bind fun _ => yields_bind fun _ => yields_bind fun _ => yields_bind fun _ =>
      yields_pure fits_nil
  · refine yields_bind fun _ => yields_bind fun _ => yields_bind fun _ => yields_bind fun _ => ?_
    refine yields_ite ?_ (yields_ite ?_ (yields_ite ?_ yields_failWith))
    · exact yields_bind fun _ => yields_bind fun _ => yields_bind fun _ => yields_bind fun _ =>
        yields_pure fits_nil
    · exact yields_bind fun _ => yields_bind fun _ => yields_bind fun _ => yields_bind fun _ =>
        issueToken_fits
    · exact yields_bind fun _ => yields_bind fun _ => yields_bind fun _ => yields_bind fun _ =>
        yields_bind fun _ => yields_bind fun _ => issueToken_fits

theorem cborEncodeCredentialMetadata_fits : Yields Fits cborEncodeCredentialMetadata := by
  unfold cborEncodeCredentialMetadata
  refine yields_bind fun w => ?_
  refine yields_encode.bind fun e₁ h₁ => ?_
  refine yields_encode.bind fun e₂ h₂ => ?_
  refine yields_encode.bind fun e₃ h₃ => ?_
  refine yields_encode.bind fun e₄ h₄ => ?_
  refine yields_encode.bind fun e₅ h₅ => ?_
  refine yields_encode.bind fun e₆ h₆ => ?_
  exact yields_pure (fits_of_capacity (by grind [capacity_responseEncoder]))

theorem coseKeyGenerate_capacity {map : Encoder} {input : List UInt8} {type : CredType}
    {alg : Option CoseAlg} :
    Yields (fun e => e.capacity = map.capacity) (coseKeyGenerate P map input type alg) := by
  have hadd : ∀ (x y : Bytes 32) alg, ((coseKeyAdd map x y alg).toOption.getD map).capacity
      = map.capacity := by
    intro x y alg
    cases h : coseKeyAdd map x y alg with
    | ok e => exact capacity_coseKeyAdd h
    | error e => rfl
  unfold coseKeyGenerate
  refine yields_ite (yields_pure rfl) ?_
  split
  · exact yields_bind fun pub => yields_pure (hadd _ _ _)
  · exact yields_bind fun w => yields_pure (hadd _ _ _)
  · exact yields_pure rfl

theorem cborEncodeEnumerateCredential_fits {rk : ResidentKey} {count : Nat} :
    Yields Fits (cborEncodeEnumerateCredential P rk count) := by
  unfold cborEncodeEnumerateCredential
  refine yields_bind fun w => ?_
  refine yields_encode.bind fun e₁ h₁ => ?_
  refine yields_encode.bind fun e₂ h₂ => ?_
  refine yields_encode.bind fun e₃ h₃ => ?_
  refine yields_encode.bind fun e₄ h₄ => ?_
  refine yields_encode.bind fun e₅ h₅ => ?_
  refine yields_encode.bind fun e₆ h₆ => ?_
  refine coseKeyGenerate_capacity.bind fun e₇ h₇ => ?_
  refine yields_encode.bind fun e₈ h₈ => ?_
  refine yields_encode.bind fun e₉ h₉ => ?_
  refine yields_encode.bind fun e₁₀ h₁₀ => ?_
  refine yields_encode.bind fun e₁₁ h₁₁ => ?_
  exact yields_pure (fits_of_capacity (by grind [capacity_responseEncoder]))

theorem cborEncodeEnumerateRp_fits {rk : ResidentKey} {count : Nat} :
    Yields Fits (cborEncodeEnumerateRp rk count) := by
  unfold cborEncodeEnumerateRp
  refine yields_encode.bind fun e₁ h₁ => ?_
  refine yields_encode.bind fun e₂ h₂ => ?_
  refine yields_encode.bind fun e₃ h₃ => ?_
  refine yields_encode.bind fun e₄ h₄ => ?_
  refine yields_encode.bind fun e₅ h₅ => ?_
  refine yields_encode.bind fun e₆ h₆ => ?_
  refine yields_encode.bind fun e₇ h₇ => ?_
  refine yields_encode.bind fun e₈ h₈ => ?_
  refine yields_encode.bind fun e₉ h₉ => ?_
  refine yields_encode.bind fun e₁₀ h₁₀ => ?_
  refine yields_encode.bind fun e₁₁ h₁₁ => ?_
  refine yields_encode.bind fun e₁₂ h₁₂ => ?_
  exact yields_pure (fits_of_capacity (by grind [capacity_responseEncoder]))

theorem endEnumeration_yields {Q : α → Prop} {s : CtapError} :
    Yields Q (endEnumeration s : CtapM α) := yields_bind fun _ => yields_failWith

theorem credMgmtCommand_fits {CM : CredMgmt} : Yields Fits (credMgmtCommand P CM) := by
  unfold credMgmtCommand
  split
  · exact cborEncodeCredentialMetadata_fits
  · refine yields_bind fun _ => yields_bind fun _ => yields_bind fun _ => yields_bind fun r => ?_
    cases r with
    | none => exact endEnumeration_yields
    | some rk => exact cborEncodeEnumerateRp_fits
  · refine yields_bind fun _ => yields_bind fun _ => yields_bind fun r => ?_
    cases r with
    | none => exact endEnumeration_yields
    | some rk => exact cborEncodeEnumerateRp_fits
  · refine yields_bind fun _ => yields_bind fun _ => yields_bind fun _ => yields_bind fun _ =>
      yields_bind fun _ => yields_bind fun _ => yields_bind fun r => ?_
    cases r with
    | none => exact endEnumeration_yields
    | some rk => exact cborEncodeEnumerateCredential_fits
  · refine yields_bind fun _ => yields_bind fun _ => yields_bind fun _ => yields_bind fun r => ?_
    cases r with
    | none => exact endEnumeration_yields
    | some rk => exact cborEncodeEnumerateCredential_fits
  · exact yields_bind fun _ => yields_bind fun _ => yields_bind fun _ => yields_pure fits_nil
  · exact yields_bind fun _ => yields_bind fun _ => yields_bind fun _ => yields_bind fun _ =>
      yields_bind fun _ => yields_bind fun _ => yields_bind fun _ => yields_bind fun _ =>
        yields_pure fits_nil
  · exact yields_failWith

theorem encodeAssertionResponse_capacity {map : Encoder} {cred : CredentialDescriptor}
    {authData : List UInt8} {hash : Bytes 32} :
    Yields (fun e => e.capacity = map.capacity) (encodeAssertionResponse P map cred authData hash) := by
  unfold encodeAssertionResponse
  refine yields_encode.bind fun e₁ h₁ => ?_
  refine yields_encode.bind fun e₂ h₂ => ?_
  refine yields_encode.bind fun e₃ h₃ => ?_
  refine yields_encode.bind fun e₄ h₄ => ?_
  refine yields_bind fun _ => yields_bind fun _ => yields_bind fun _ => ?_
  refine yields_encode.bind fun e₅ h₅ => ?_
  refine yields_encode.bind fun e₆ h₆ => yields_ite ?_ ?_
  · refine yields_encode.bind fun e₇ h₇ => yields_bind fun _ => ?_
    intro w e₈ w' h₈
    have h₉ := yields_encode w e₈ w' h₈
    grind
  · exact yields_pure (by grind)

theorem encodeCount_capacity {map : Encoder} {count : Nat} :
    Yields (fun e => e.capacity = map.capacity) (encodeCount map count) := by
  unfold encodeCount
  refine yields_ite (yields_encode.bind fun e₁ h₁ => ?_) (yields_pure rfl)
  intro w e₂ w' h₂
  have h₃ := yields_encode w e₂ w' h₂
  grind

theorem ctapGetAssertion_fits {request : List UInt8} : Yields Fits (ctapGetAssertion P request) := by
  unfold ctapGetAssertion
  refine yields_bind fun GA => yields_bind fun _ => yields_bind fun _ => yields_bind fun _ =>
    yields_bind fun _ => yields_bind fun count => yields_bind fun _ => yields_bind fun _ => ?_
  refine yields_encode.bind fun e₁ h₁ => ?_
  refine yields_bind fun _ => yields_bind fun _ => yields_bind fun _ => yields_bind fun _ =>
    yields_bind fun _ => ?_
  refine encodeAssertionResponse_capacity.bind fun e₂ h₂ => ?_
  refine encodeCount_capacity.bind fun e₃ h₃ => ?_
  refine yields_encode.bind fun e₄ h₄ => yields_bind fun _ => ?_
  exact yields_pure (fits_of_capacity (by grind [capacity_responseEncoder]))

theorem ctapGetNextAssertion_fits : Yields Fits (ctapGetNextAssertion P) := by
  unfold ctapGetNextAssertion
  refine yields_bind fun next => ?_
  cases next with
  | none => exact yields_failWith
  | some i =>
    refine yields_bind fun _ => yields_bind fun _ => yields_bind fun _ => ?_
    refine yields_encode.bind fun e₁ h₁ => ?_
    refine yields_bind fun _ => yields_bind fun _ => yields_bind fun _ => ?_
    refine encodeAssertionResponse_capacity.bind fun e₂ h₂ => ?_
    refine yields_encode.bind fun e₃ h₃ => ?_
    exact yields_pure (fits_of_capacity (by grind [capacity_responseEncoder]))

theorem attestationStatement_capacity {map : Encoder} {sigder : List UInt8} :
    Yields (fun e => e.capacity = map.capacity) (cborEncodeAttestationStatement map sigder) := by
  unfold cborEncodeAttestationStatement
  refine yields_encode.bind fun e₁ h₁ => yields_bind fun _ => yields_ite ?_ ?_
  · refine yields_bind fun w => ?_
    cases attestationReadCert w with
    | none => exact yields_failWith
    | some cert =>
      refine yields_encode.bind fun e₂ h₂ => ?_
      refine yields_encode.bind fun e₃ h₃ => ?_
      refine yields_encode.bind fun e₄ h₄ => ?_
      refine yields_encode.bind fun e₅ h₅ => ?_
      refine yields_encode.bind fun e₆ h₆ => ?_
      refine yields_encode.bind fun e₇ h₇ => ?_
      refine yields_encode.bind fun e₈ h₈ => ?_
      refine yields_encode.bind fun e₉ h₉ => ?_
      refine yields_encode.bind fun e₁₀ h₁₀ => ?_
      intro w e₁₁ w' h
      have h₁₁ := yields_encode w e₁₁ w' h
      grind
  · refine yields_encode.bind fun e₂ h₂ => ?_
    intro w e₃ w' h
    have h₃ := yields_encode w e₃ w' h
    grind

theorem ctapMakeCredential_fits {request : List UInt8} : Yields Fits (ctapMakeCredential P request) := by
  unfold ctapMakeCredential
  refine yields_bind fun MC => yields_bind fun _ => yields_bind fun _ => yields_bind fun _ =>
    yields_bind fun _ => yields_bind fun _ => yields_bind fun _ => yields_bind fun _ => ?_
  refine yields_bind fun _ => yields_bind fun _ => ?_
  refine yields_encode.bind fun e₁ h₁ => ?_
  refine yields_encode.bind fun e₂ h₂ => yields_bind fun _ => ?_
  refine yields_encode.bind fun e₃ h₃ => yields_bind fun _ => ?_
  refine yields_encode.bind fun e₄ h₄ => ?_
  refine yields_encode.bind fun e₅ h₅ => yields_bind fun _ => ?_
  refine attestationStatement_capacity.bind fun e₆ h₆ => ?_
  refine yields_encode.bind fun e₇ h₇ => ?_
  exact yields_pure (fits_of_capacity (by grind [capacity_responseEncoder]))

/-- An encoder call that leaves the size of the buffer alone. -/
def Regular (call : Encoder → EncM Encoder) : Prop := ∀ e e', call e = .ok e' → e'.capacity = e.capacity

theorem capacity_encodeAll {calls : List (Encoder → EncM Encoder)} (h : ∀ c ∈ calls, Regular c)
    {e e' : Encoder} (he : encodeAll calls e = .ok e') : e'.capacity = e.capacity := by
  induction calls generalizing e with
  | nil =>
    obtain rfl := Except.ok.inj he
    rfl
  | cons c cs ih =>
    simp only [encodeAll, List.foldlM_cons, except_bind_eq_ok] at he
    obtain ⟨e₁, h₁, he⟩ := he
    rw [ih (fun x hx => h x (by simp [hx])) he]
    exact h c (by simp) e e₁ h₁

theorem regular_inContainer {create : Encoder → EncM Encoder} {items : List (Encoder → EncM Encoder)}
    (hcreate : Regular create) (hitems : ∀ c ∈ items, Regular c) :
    Regular (inContainer create items) := by
  intro e e' h
  simp only [inContainer, except_bind_eq_ok] at h
  obtain ⟨e₁, h₁, e₂, h₂, h₃⟩ := h
  rw [capacity_close h₃, capacity_encodeAll hitems h₂]
  exact hcreate e e₁ h₁

theorem regular_encodeText (s : String) : Regular (encodeText s) := fun _ _ => capacity_textString

theorem regular_uint (v : Nat) : Regular (·.uint v) := fun _ _ => capacity_uint

theorem regular_int (v : Int) : Regular (·.int v) := fun _ _ => capacity_int

theorem regular_negativeInt (v : Nat) : Regular (·.negativeInt v) := fun _ _ => capacity_negativeInt

theorem regular_boolean (b : Bool) : Regular (·.boolean b) := fun _ _ => capacity_boolean

theorem regular_byteString (s : List UInt8) : Regular (·.byteString s) := fun _ _ => capacity_byteString

theorem regular_createArray (n : Nat) : Regular (·.createArray n) := fun _ _ => capacity_createArray

theorem regular_createMap (n : Nat) : Regular (·.createMap n) := fun _ _ => capacity_createMap

theorem regular_encodeAlgorithm (v : Nat) : Regular (encodeAlgorithm v) := by
  refine regular_inContainer (regular_createMap 2) ?_
  simp only [List.forall_mem_cons, List.not_mem_nil, false_imp_iff, implies_true, and_true]
  exact ⟨regular_encodeText _, regular_negativeInt _, regular_encodeText _, regular_encodeText _⟩

theorem ctapGetInfo_fits : Yields Fits ctapGetInfo := by
  unfold ctapGetInfo
  refine yields_bind fun w => yields_encode.bind fun e h => ?_
  refine yields_pure (fits_of_capacity ((?_ : Regular _) responseEncoder e h))
  simp [regular_inContainer, regular_createMap, regular_createArray, regular_encodeText, regular_uint,
    regular_int, regular_boolean, regular_byteString, regular_encodeAlgorithm]

theorem dispatch_fits {cmd : Command} {request : List UInt8} : Yields Fits (dispatch P cmd request) := by
  unfold dispatch
  refine yields_bind fun _ => yields_bind fun _ => yields_bind fun _ => yields_bind fun _ => ?_
  cases cmd with
  | makeCredential => exact ctapMakeCredential_fits
  | getAssertion => exact ctapGetAssertion_fits
  | getInfo => exact ctapGetInfo_fits
  | clientPin => exact ctapClientPin_fits
  | reset =>
    exact yields_bind fun _ => yields_bind fun _ => yields_bind fun _ => yields_bind fun _ =>
      yields_bind fun _ => yields_bind fun _ => yields_bind fun _ => yields_bind fun _ => yields_pure fits_nil
  | getNextAssertion => exact yields_bind fun _ => yields_bind fun _ => ctapGetNextAssertion_fits
  | credentialManagement => exact yields_bind fun _ => yields_bind fun _ => credMgmtCommand_fits
  | selection => exact yields_bind fun _ => yields_bind fun _ => yields_pure fits_nil
  | invalid => exact yields_failWith

/-- No response of `ctap_request` is longer than the response buffer. -/
theorem ctapRequest_fits {cmd : UInt8} {request : List UInt8} :
    Yields (fun r => Fits r.2) (ctapRequest P cmd request) := by
  unfold ctapRequest
  refine Yields.bind (P := fun r => Fits r.2) ?_ fun r hr => yields_bind fun _ => yields_pure hr
  intro w r w' h
  rcases tryCatch_eq_ok.mp h with h | ⟨e, w₁, -, h⟩
  · exact (dispatch_fits.bind (R := fun r => Fits r.2) fun out hout => yields_pure hout) w r w' h
  · cases e with
    | status s =>
      obtain ⟨rfl, -⟩ := pure_eq_ok.mp h
      exact fits_nil
    | halt s => exact (throw_ne_ok.mp h).elim

theorem u2fResponseWriteback_fits {out buf : List UInt8} : Yields Fits (u2fResponseWriteback out buf) := by
  intro w r w' h
  unfold u2fResponseWriteback at h
  split_ifs at h with hlen
  · exact (throw_ne_ok.mp h).elim
  · obtain ⟨rfl, -⟩ := pure_eq_ok.mp h
    unfold Fits
    rw [List.length_append]
    omega

/-- No response of `u2f_request` is longer than the response buffer. -/
theorem u2fRequest_fits {b : CtapBuffer} : Yields (fun r => Fits r.1) (u2fRequest P b) := by
  unfold u2fRequest
  refine yields_ite ?_ ?_
  · refine yields_bind fun r => yields_bind fun out => ?_
    exact u2fResponseWriteback_fits.bind fun out' h => yields_pure h
  · refine yields_bind fun r => yields_bind fun out => ?_
    exact u2fResponseWriteback_fits.bind fun out' h => yields_pure h

end Commands

end TkeyFido2
