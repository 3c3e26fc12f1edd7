import TkeyFido2.Ctap.Aes
import TkeyFido2.Ctap.AuthParams
import TkeyFido2.Ctap.CredentialRoundTrip
import TkeyFido2.Ctap.KeyAgreement

/-!
# From a new PIN to a token

A PIN arrives encrypted under the key of one protocol, its hash is encrypted again under the key of the device
and goes to the state file.  A request for a token brings a hash under the key of a protocol of its own.  The
device compares the two, in this power cycle or in a later one, and issues a token if they agree.
-/

namespace TkeyFido2

open Cbor Encoder Prog

/-! ## The platform's side -/

/-- What a platform sends for `plain`; protocol 2 puts the IV in front. -/
def Primitives.platformEncrypt (C : Primitives) (key : Bytes 32) (iv : Bytes 16) (proto : UInt8) {m : Nat}
    (plain : Bytes m) : List UInt8 :=
  if proto = 1 then (C.aesCbcEncrypt key (Bytes.zero 16) plain).toList
  else iv.toList ++ (C.aesCbcEncrypt key iv plain).toList

/-- The bytes that a protocol needs for an IV. -/
def ivSize (proto : UInt8) : Nat := if proto = 1 then 0 else 16

/-- The first half of the hash of a PIN. -/
def Primitives.pinHash (C : Primitives) (pin : List UInt8) : Bytes 16 := (C.sha256 pin).slice 0 16

section Decrypt

variable {C : Primitives} {key : Bytes 32} {iv : Bytes 16} {proto : UInt8} {n m len : Nat} {buf : Bytes n}
  {plain : Bytes m}

/-- `decrypt` undoes the encryption of the platform. -/
theorem decrypt_platformEncrypt (hC : C.CbcUndoes) (hm : 16 ∣ m) (hpos : 0 < m) (hlen : len = m + ivSize proto)
    (hn : len ≤ n) (h : buf.toList.take len = C.platformEncrypt key iv proto plain) :
    ∃ out, decrypt C buf len key proto = .ok out ∧ out.toList.take m = plain.toList := by
  have hbuf : buf.toList = C.platformEncrypt key iv proto plain ++ buf.toList.drop len := by
    rw [← h, List.take_append_drop]
  have hpatch (rest : List UInt8) (hle : m + rest.length ≤ n) :
      (buf.patch 0 (plain.toList ++ rest)).toList.take m = plain.toList := by
    rw [Bytes.toList_patch_of_le _ _ _ (by simpa using hle)]
    simp
  unfold ivSize at hlen
  unfold Primitives.platformEncrypt at hbuf
  unfold decrypt
  by_cases hproto : proto = 1
  · rw [if_pos hproto] at hlen hbuf ⊢
    obtain rfl : len = m := hlen
    have hslice : buf.slice 0 len = C.aesCbcEncrypt key (Bytes.zero 16) plain :=
      Bytes.slice_of_append [] _ hbuf rfl
    rw [hslice, (hC key (Bytes.zero 16) len plain hm).1]
    exact ⟨_, rfl, by simpa using hpatch [] (by simpa using hn)⟩
  · rw [if_neg hproto] at hlen hbuf ⊢
    rw [List.append_assoc] at hbuf
    rw [if_neg (by omega)]
    have hiv : buf.slice 0 16 = iv :=
      Bytes.slice_of_append [] _ hbuf rfl
    have hplain (k : Nat) (hk : k = m) : (C.aesCbcDecrypt key iv (buf.slice 16 k)).toList = plain.toList := by
      subst hk
      have hslice : buf.slice 16 k = C.aesCbcEncrypt key iv plain :=
        Bytes.slice_of_append _ _ hbuf iv.toList_length
      rw [hslice, (hC key iv k plain hm).1]
    rw [hiv]
    refine ⟨_, rfl, ?_⟩
    rw [hplain (len - 16) (by omega)]
    exact hpatch _ (by rw [List.length_replicate]; omega)

end Decrypt

/-! ## The length of a PIN -/

/-- The zeros behind the last byte that is not zero, or behind the first byte. -/
theorem trailingZeros_eq {n : Nat} {buf : Bytes n} {i j : Nat} (hj : j ≤ i) (hlast : j = 0 ∨ buf.byte j ≠ 0)
    (hzero : ∀ k, j < k → k ≤ i → buf.byte k = 0) : trailingZeros buf i = i - j := by
  induction i with
  | zero => simp [trailingZeros]
  | succ i ih =>
    unfold trailingZeros
    by_cases hi : j = i + 1
    · have hne : buf.byte (i + 1) ≠ 0 := hi ▸ hlast.resolve_left (by omega)
      rw [if_neg hne, hi, Nat.sub_self]
    · rw [if_pos (hzero (i + 1) (by omega) le_rfl), ih (by omega) fun k hk hki => hzero k hk (by omega)]
      omega

/-- A PIN of 1 to 64 bytes that does not end in a zero byte is what is left of it in its padding. -/
theorem newPinLen_eq {buf : Bytes 80} {pin : List UInt8} (hpin : pin.length ≤ 64)
    (hlast : ∀ b ∈ pin.getLast?, b ≠ 0) (h : buf.toList.take 64 = (Bytes.ofList 64 pin).toList) :
    64 - trailingZeros buf 63 = max pin.length 1 := by
  have hbyte (k : Nat) (hk : k < 64) : buf.byte k = pin.getD k 0 := by
    have hget : (buf.toList.take 64).getD k 0 = buf.byte k := by
      unfold Bytes.byte
      simp only [List.getD_eq_getElem?_getD, List.getElem?_take, if_pos hk]
    rw [← hget, h, Bytes.toList_ofList_of_le hpin]
    simp only [List.getD_eq_getElem?_getD, List.getElem?_append]
    split
    · rfl
    · rename_i hlt
      rw [List.getElem?_eq_none (by omega : pin.length ≤ k), List.getElem?_replicate]
      split <;> rfl
  have hzeros : trailingZeros buf 63 = 63 - (pin.length - 1) := by
    refine trailingZeros_eq (by omega) ?_ fun k hk hle => ?_
    · rcases Nat.lt_or_ge pin.length 2 with hshort | hlong
      · exact .inl (by omega)
      · refine .inr ?_
        rw [hbyte _ (by omega)]
        have hsome : pin.getLast? = some (pin.getD (pin.length - 1) 0) := by
          rw [List.getLast?_eq_getElem?, List.getD_eq_getElem?_getD, List.getElem?_eq_getElem (by omega)]
          rfl
        exact hlast _ hsome
    · rw [hbyte k (by omega), List.getD_eq_getElem?_getD, List.getElem?_eq_none (by omega)]
      rfl
  omega

/-! ## The stored PIN -/

/-- The hash that `verify_against_stored_pin` compares with. -/
def World.storedHash (P : Platform) (w : World) : Bytes 16 :=
  P.prims.aesCbcDecrypt P.keyPinEnc w.state.pinHashIv w.state.pinHashEnc

/-- A PIN with this hash is set.  A device without attempts has forgotten it. -/
structure World.HoldsPin (P : Platform) (hash : Bytes 16) (w : World) : Prop where
  isSet : clientPinIsSet w = true
  stored : 0 < w.state.remainingTries → w.storedHash P = hash

/-- All but the PIN. -/
def pinlessParts : List Part :=
  [.stateFile, .counter, .rkFiles, .rkStored, .identity, .keys, .token, .boot, .ga, .cm, .upDisabled, .inputs,
    .pinChecks, .issued, .verified, .usage, .hmacOutputs, .signatures, .rkChanges, .assertionEvents, .journal,
    .fixed]

section Stored

variable {P : Platform} {w w' : World} {hash : Bytes 16}

theorem World.HoldsPin.of_pinState (h : w.HoldsPin P hash) (heq : w'.pinState = w.pinState) :
    w'.HoldsPin P hash := by
  simp only [World.pinState, Prod.mk.injEq] at heq
  obtain ⟨hset, htries, henc, hiv⟩ := heq
  obtain ⟨hisSet, hstored⟩ := h
  refine ⟨?_, fun hpos => ?_⟩
  · unfold clientPinIsSet at hisSet ⊢
    rwa [hset]
  · unfold World.storedHash
    rw [henc, hiv]
    exact hstored (htries ▸ hpos)

theorem ignores_holdsPin : Ignores pinlessParts (World.HoldsPin P hash) :=
  fun _ _ h hw => hw.of_pinState (h .pinState (by decide))

/-- A change of the number of attempts; it may not bring attempts back. -/
theorem World.HoldsPin.of_tries (h : w.HoldsPin P hash) {n : Int8} (hn : 0 < n → 0 < w.state.remainingTries) :
    ({ w with state := { w.state with remainingTries := n } } : World).HoldsPin P hash :=
  ⟨h.isSet, fun hpos => h.stored (hn hpos)⟩

theorem preserves_write : Preserves (World.HoldsPin P hash) (authenticatorWriteState P) :=
  ignores_holdsPin.preserves touches_authenticatorWriteState (by decide)

theorem decrementPinAttempts_holdsPin : Preserves (World.HoldsPin P hash) (decrementPinAttempts P) := by
  rw [preserves_iff_ends]
  intro w hw
  unfold decrementPinAttempts
  rw [ends_bind, ends_modify]
  generalize hw₁ : (if 0 < w.pinBootAttemptsLeft then
    { w with pinBootAttemptsLeft := w.pinBootAttemptsLeft - 1 } else w) = w₁
  have hpin : w₁.pinState = w.pinState := by
    rw [← hw₁]
    split <;> rfl
  have hholds : w₁.HoldsPin P hash := hw.of_pinState hpin
  rw [ends_bind, ends_get, ends_ite]
  refine ⟨fun hopen => ?_, fun _ => hholds⟩
  have hpos : 0 < w₁.state.remainingTries := by simpa [clientPinIsLocked] using hopen
  rw [ends_bind, ends_modify, ends_bind]
  refine ends_of_ok (authenticatorWriteState_eq _) ?_
  have hless := hholds.of_tries (n := w₁.state.remainingTries - 1) fun _ => hpos
  rw [ends_bind, ends_get, ends_ite]
  refine ⟨fun hlocked => ?_, fun _ => hless.of_pinState rfl⟩
  -- the hash is wiped when no attempt is left
  refine ends_of_ok (authenticatorWriteState_eq _) ⟨hless.isSet, fun hleft => ?_⟩
  have hnone : w₁.state.remainingTries - 1 ≤ 0 := of_decide_eq_true hlocked
  exact absurd hleft (Int8.not_lt.mpr hnone)

theorem resetPinAttempts_holdsPin :
    Leads (fun w => w.HoldsPin P hash ∧ w.Unlocked) (World.HoldsPin P hash) (resetPinAttempts P) := by
  rw [leads_iff_ends]
  rintro w ⟨hw, hopen⟩
  unfold resetPinAttempts
  rw [ends_bind, ends_get, ends_ite]
  refine ⟨fun _ => ?_, fun _ => hw⟩
  exact ends_of_ok (authenticatorWriteState_eq _) ⟨hw.isSet, fun _ => hw.stored hopen.1⟩

/-- A comparison leaves the PIN. -/
theorem comparePin_holdsPin {α : Type} {h : Bytes 16} {proto : UInt8} {k : CtapM α}
    (hk : Preserves (World.HoldsPin P hash) k) :
    Leads (fun w => w.HoldsPin P hash ∧ w.Unlocked) (World.HoldsPin P hash) (comparePin P h proto k) := by
  have hverify : Preserves (fun w => w.HoldsPin P hash ∧ w.Unlocked) (verifyAgainstStoredPin P h) := by
    rw [preserves_iff_ends]
    rintro w ⟨hw, hopen⟩
    exact ends_of_ok (show verifyAgainstStoredPin P h w = .ok _ _ from rfl) ⟨hw.of_pinState rfl, hopen⟩
  refine hverify.bind_leads (fun _ hw => hw.1) fun _ =>
    leads_ite (fun _ => ?_) fun _ => Preserves.leads ?_ fun _ hw => hw.1
  · exact resetPinAttempts_holdsPin.bind_preserves fun _ => hk
  · exact (ignores_holdsPin.preserves touches_regenerateKeyAgreement (by decide)).bind fun _ =>
      decrementPinAttempts_holdsPin.bind fun _ => preserves_get.bind fun _ => preserves_failIf.bind fun _ =>
      preserves_get.bind fun _ => preserves_failIf.bind fun _ => preserves_throw

theorem storePin_ok (pin : List UInt8) (w : World) : ∃ iv w', storePin P pin w = .ok () w' ∧
    w'.pinState =
      (1, w.state.remainingTries, P.prims.aesCbcEncrypt P.keyPinEnc iv (P.prims.pinHash pin), iv) := by
  unfold storePin
  obtain ⟨iv, w₁, hiv⟩ : ∃ iv w₁, ctapGenerateRng 16 w = .ok iv w₁ := ⟨_, _, rfl⟩
  have htries : w₁.state.remainingTries = w.state.remainingTries :=
    congrArg (fun x => x.2.1) ((touches_ctapGenerateRng .pinState (by decide)).ok hiv)
  refine ⟨iv, _, (bind_of_ok hiv).trans (authenticatorWriteState_eq _), ?_⟩
  rw [← htries]
  rfl

/-- changePIN stores a PIN at its end, or fails and leaves the old one. -/
theorem updatePinIfVerified_holdsPin (hw : w.HoldsPin P hash) (hopen : w.Unlocked) {n : Bytes 80} {len : UInt8}
    {pub : Bytes 64} {a : Bytes 32} {h : Option (Bytes 32)} {proto : UInt8} :
    Ends (updatePinIfVerified P n len pub a h proto) w (fun _ _ => True) fun _ w' => w'.HoldsPin P hash := by
  have hfree : Ignores pinFreeParts (World.HoldsPin P hash) := ignores_holdsPin.mono (by decide)
  have hverify : Preserves (fun w => w.HoldsPin P hash ∧ w.Unlocked) (verifyNewPin P n len pub a h proto) :=
    preserves_failIf.bind fun _ =>
      ((ignores_and_unlocked hfree).preserves touches_ecdh (by decide)).bind fun (_, _) =>
      preserves_failIf.bind fun _ => preserves_pure
  rw [updatePinIfVerified_eq, ends_bind]
  refine (hverify.ends ⟨hw, hopen⟩).mono (fun key w₁ hw₁ => ?_) fun _ _ h => h.1
  unfold storeNewPin
  rw [ends_bind, ends_ctapCheck]
  refine ⟨fun newPin _ => ?_, fun _ _ => hw₁.1⟩
  rw [ends_bind, ends_failIf]
  refine ⟨fun _ => hw₁.1, fun _ => ?_⟩
  rw [ends_bind]
  have hcompare : Leads (fun w => w.HoldsPin P hash ∧ w.Unlocked) (World.HoldsPin P hash)
      (verifyCurrentPinIfSet P h key proto) := leads_verifyCurrentPinIfSet hfree comparePin_holdsPin
  refine (leads_iff_ends.mp hcompare w₁ hw₁).mono (fun _ w₂ _ => ?_) fun _ _ h => h
  obtain ⟨iv, w₃, hstore, -⟩ := storePin_ok (P := P) (newPin.toList.take (64 - trailingZeros newPin 63)) w₂
  exact ends_of_ok hstore trivial

/-- authenticatorClientPIN leaves the PIN, unless it sets or changes it. -/
theorem ctapClientPin_holdsPin (hw : w.HoldsPin P hash) {request : List UInt8} :
    Ends (ctapClientPin P request) w
      (fun _ w' => (∀ CP, parseClientPinRequest request = .ok CP → ¬ (CP.subCommand = 3 ∨ CP.subCommand = 4)) →
        w'.HoldsPin P hash)
      fun _ w' => w'.HoldsPin P hash := by
  have hfree : Ignores pinFreeParts (World.HoldsPin P hash) := ignores_holdsPin.mono (by decide)
  have hall {m : CtapM (List UInt8)} {Q : List UInt8 → World → Prop} (hm : Preserves (World.HoldsPin P hash) m)
      (hQ : ∀ out w', w'.HoldsPin P hash → Q out w') : Ends m w Q fun _ w' => w'.HoldsPin P hash :=
    (hm.ends hw).mono hQ fun _ _ h => h
  unfold ctapClientPin
  rw [ends_bind, ends_ctapCheck]
  refine ⟨fun CP hparse => ?_, fun _ _ => hw⟩
  simp only [ends_bind, ends_failIf]
  refine ⟨fun _ => hw, fun _ => ⟨fun _ => hw, fun _ => ?_⟩⟩
  rw [ends_ite]
  refine ⟨fun _ => hall (ignores_holdsPin.preserves touches_getPinRetries (by decide)) fun _ _ h _ => h,
    fun _ => ?_⟩
  rw [ends_ite]
  refine ⟨fun _ => hall (ignores_holdsPin.preserves touches_getKeyAgreement (by decide)) fun _ _ h _ => h,
    fun _ => ?_⟩
  rw [ends_ite]
  refine ⟨fun _ => ?_, fun _ => ?_⟩
  · -- a PIN is set already
    unfold setPin
    simp only [ends_bind, ends_failIf, ends_get]
    exact ⟨fun _ => hw, fun _ => ⟨fun _ => hw, fun hno => absurd hw.isSet hno⟩⟩
  simp only [ends_bind, ends_failIf, ends_get]
  refine ⟨fun _ => hw, fun htries => ⟨fun _ => hw, fun hboot => ?_⟩⟩
  have hopen : w.Unlocked := by
    constructor
    · simpa [clientPinIsLocked] using htries
    · simpa [clientPinIsBootLocked] using hboot
  have hissue {perms : UInt8} {rp : List UInt8} : Leads (fun w => w.HoldsPin P hash ∧ w.Unlocked)
      (World.HoldsPin P hash) (issueToken P CP perms rp) := leads_issueToken hfree comparePin_holdsPin
  have hissued {perms : UInt8} {rp : List UInt8} {Q : List UInt8 → World → Prop}
      (hQ : ∀ out w', w'.HoldsPin P hash → Q out w') :
      Ends (issueToken P CP perms rp) w Q fun _ w' => w'.HoldsPin P hash :=
    (leads_iff_ends.mp hissue w ⟨hw, hopen⟩).mono hQ fun _ _ h => h
  rw [ends_ite]
  refine ⟨fun hchange => ?_, fun _ => ?_⟩
  · unfold changePin
    simp only [ends_bind, ends_failIf, ends_get]
    refine ⟨fun _ => hw, fun _ => ⟨fun _ => hw, fun _ => ?_⟩⟩
    exact (updatePinIfVerified_holdsPin hw hopen).mono (fun _ _ _ hno => absurd (.inr hchange) (hno CP hparse))
      fun _ _ h => h
  rw [ends_ite]
  refine ⟨fun _ => ?_, fun _ => ?_⟩
  · unfold getPinToken
    simp only [ends_bind, ends_failIf, ends_get]
    exact ⟨fun _ => hw, fun _ => ⟨fun _ => hw, fun _ => ⟨fun _ => hw, fun _ => hissued fun _ _ h _ => h⟩⟩⟩
  rw [ends_ite]
  refine ⟨fun _ => ?_, fun _ => hw⟩
  unfold getPinUvAuthTokenUsingPinWithPermissions
  simp only [ends_bind, ends_failIf, ends_get]
  exact ⟨fun _ => hw, fun _ => ⟨fun _ => hw, fun _ => ⟨fun _ => hw, fun _ => ⟨fun _ => hw, fun _ =>
    ⟨fun _ => hw, fun _ => hissued fun _ _ h _ => h⟩⟩⟩⟩⟩

/-- A request that sets or changes the PIN. -/
def Served.ForNewPin (r : Served) (CP : ClientPin) : Prop :=
  commandOf r.cmd = .clientPin ∧ parseClientPinRequest r.request = .ok CP ∧
    (CP.subCommand = 3 ∨ CP.subCommand = 4)

/-- A request that keeps the PIN: no successful reset, setPIN or changePIN. -/
def Served.SparesPin (r : Served) : Prop := r.resets = false ∧ (r.status = .ok → ∀ CP, ¬ r.ForNewPin CP)

theorem Served.Valid.holdsPin {r : Served} (hv : r.Valid P) (hspares : r.SparesPin)
    (h : r.before.HoldsPin P hash) : r.after.HoldsPin P hash := by
  obtain ⟨inputs, hr⟩ := hv
  obtain ⟨w₁, hafter, hd⟩ := ctapRequest_cases hr
  have hstart : (r.before.withInputs inputs).HoldsPin P hash := h.of_pinState rfl
  have hdone : w₁.HoldsPin P hash → r.after.HoldsPin P hash := fun hw => by
    rw [hafter]
    exact hw.of_pinState rfl
  refine hdone ?_
  by_cases hreset : commandOf r.cmd = .reset
  · rw [hreset] at hd
    have hends := ctapReset_ends (P := P) (r.before.withInputs inputs)
    rcases hd with ⟨hok, hd⟩ | ⟨e, -, -, hd⟩
    · have hno := hspares.1
      simp [Served.resets, hreset, hok] at hno
    · exact hstart.of_pinState (hends.error hd .pinState (by decide))
  by_cases hpin : commandOf r.cmd = .clientPin
  · have hcommand : Ends (dispatch P .clientPin r.request) (r.before.withInputs inputs)
        (fun _ w' => (∀ CP, parseClientPinRequest r.request = .ok CP →
          ¬ (CP.subCommand = 3 ∨ CP.subCommand = 4)) → w'.HoldsPin P hash)
        fun _ w' => w'.HoldsPin P hash := by
      unfold dispatch
      simp only [ends_bind, ends_get, ends_failIf]
      exact ⟨fun _ => hstart, fun _ => ⟨fun _ => hstart, fun _ => ctapClientPin_holdsPin hstart⟩⟩
    rw [hpin] at hd
    rcases hd with ⟨hok, hd⟩ | ⟨e, -, -, hd⟩
    · exact hcommand.ok hd fun CP hparse hsub => hspares.2 hok CP ⟨hpin, hparse, hsub⟩
    · exact hcommand.error hd
  · have hkeep : Preserves (World.HoldsPin P hash) (dispatch P (commandOf r.cmd) r.request) :=
      preserves_dispatch_of_command (ignores_holdsPin.mono (by decide)) _
        (fun _ => ignores_holdsPin.preserves touches_ctapMakeCredential (by decide))
        (fun h => absurd h hpin)
        (fun _ => ignores_holdsPin.preserves touches_ctapCredentialManagement (by decide))
        fun h => absurd h hreset
    rcases hd with ⟨-, hd⟩ | ⟨e, -, -, hd⟩
    · exact (hkeep.ends hstart).ok hd
    · exact (hkeep.ends hstart).error hd

theorem Boots.holdsPin (hb : Boots P w w') (hs : Synced P w) (h : w.HoldsPin P hash) : w'.HoldsPin P hash := by
  obtain ⟨hstate, -⟩ := hb.of_stored hs.file hs.version
  refine h.of_pinState ?_
  unfold World.pinState
  rw [hstate]
  unfold AuthState.started
  split <;> rfl

/-- A PIN stays until it is changed or the device is reset. -/
theorem Run.holdsPin {later earlier : List Entry} {g : Served} (hr : Run P (later ++ .request g :: earlier) w)
    (hg : g.after.HoldsPin P hash) (hspares : ∀ r, Entry.request r ∈ later → r.SparesPin) :
    w.HoldsPin P hash ∧ ∀ r, Entry.request r ∈ later → r.Valid P ∧ r.before.HoldsPin P hash := by
  induction later generalizing w with
  | nil =>
    obtain ⟨-, -, rfl⟩ := hr.of_request
    exact ⟨hg, fun r hr => absurd hr List.not_mem_nil⟩
  | cons e later ih =>
    have hspares' : ∀ r, Entry.request r ∈ later → r.SparesPin :=
      fun r hr => hspares r (List.mem_cons_of_mem _ hr)
    cases e with
    | request r =>
      obtain ⟨hbefore, hv, rfl⟩ := Run.of_request hr
      obtain ⟨hw, hall⟩ := ih hbefore hspares'
      refine ⟨hv.holdsPin (hspares r List.mem_cons_self) hw, fun r' hr' => ?_⟩
      rcases List.mem_cons.mp hr' with heq | hr'
      · cases heq
        exact ⟨hv, hw⟩
      · exact hall r' hr'
    | boot w₁ =>
      obtain ⟨w₀, hbefore, hb, rfl⟩ := Run.of_boot hr (by simp)
      obtain ⟨hw, hall⟩ := ih hbefore hspares'
      exact ⟨hb.holdsPin hbefore.synced hw, fun r' hr' => hall r' (by simpa using hr')⟩

end Stored

/-! ## Setting a PIN -/

/-- The length of a PIN in bytes. -/
def PinLength (pin : List UInt8) : Prop := 4 ≤ pin.length ∧ pin.length ≤ 63

/-- The device would compute this point from a platform's key. -/
def World.Shares (P : Platform) (w : World) (key : Bytes 64) (proto : UInt8) (point : Bytes 32) : Prop :=
  ∀ random, (P.prims.eccSharedSecret key (w.token (slotOf proto)).privKey random).1 = some point

/-- In a request, `sent` is `plain`, encrypted by a platform that agreed on a key with the device. -/
def World.Receives (P : Platform) (w : World) (CP : ClientPin) (sent : List UInt8) {m : Nat}
    (plain : Bytes m) : Prop :=
  ∃ point iv, w.Shares P CP.keyAgreement.pubkey CP.pinProtocol point ∧
    sent = P.prims.platformEncrypt (kdf P.prims point CP.pinProtocol).1 iv CP.pinProtocol plain

/-- setPIN or changePIN with a PIN, padded with zeros. -/
def World.OffersPin (P : Platform) (w : World) (CP : ClientPin) (pin : List UInt8) : Prop :=
  CP.newPinEncSize.toNat = 64 + ivSize CP.pinProtocol ∧
    w.Receives P CP (CP.newPinEnc.toList.take CP.newPinEncSize.toNat) (Bytes.ofList 64 pin)

section Offers

variable {P : Platform} {w w' : World} {CP : ClientPin} {pin : List UInt8}

theorem World.Receives.of_token {sent : List UInt8} {m : Nat} {plain : Bytes m} (h : w.Receives P CP sent plain)
    (htok : w'.token = w.token) : w'.Receives P CP sent plain := by
  obtain ⟨point, iv, hshares, hsent⟩ := h
  refine ⟨point, iv, fun random => ?_, hsent⟩
  rw [htok]
  exact hshares random

/-- The key agreement of the device and the decryption behind it. -/
theorem World.Receives.decrypts {n m len : Nat} {buf : Bytes n} {plain : Bytes m} (hcbc : P.prims.CbcUndoes)
    (h : w.Receives P CP (buf.toList.take len) plain) (hm : 16 ∣ m) (hpos : 0 < m)
    (hlen : len = m + ivSize CP.pinProtocol) (hn : len ≤ n) :
    ∃ key mac w₁ out, ecdh P CP.keyAgreement.pubkey CP.pinProtocol w = .ok (key, mac) w₁ ∧
      decrypt P.prims buf len key CP.pinProtocol = .ok out ∧ out.toList.take m = plain.toList := by
  obtain ⟨point, iv, hshares, hsent⟩ := h
  obtain ⟨w₁, hecdh⟩ := ecdh_of_point hshares
  obtain ⟨out, hdecrypt, hout⟩ := decrypt_platformEncrypt hcbc hm hpos hlen hn hsent
  exact ⟨_, _, w₁, out, hecdh, hdecrypt, hout⟩

/-- A PIN of the right length may be stored, one of another length changes nothing. -/
theorem updatePinIfVerified_offered (hcbc : P.prims.CbcUndoes) (hoffer : w.OffersPin P CP pin)
    (hfits : pin.length ≤ 64) (hlast : ∀ b ∈ pin.getLast?, b ≠ 0) {a : Bytes 32} {h : Option (Bytes 32)} :
    Ends (updatePinIfVerified P CP.newPinEnc CP.newPinEncSize CP.keyAgreement.pubkey a h CP.pinProtocol) w
      (fun _ w' => PinLength pin ∧ w'.HoldsPin P (P.prims.pinHash pin))
      fun _ w' => PinLength pin ∨ w'.pinState = w.pinState := by
  obtain ⟨hsize, hreceives⟩ := hoffer
  have hiv : ivSize CP.pinProtocol = 0 ∨ ivSize CP.pinProtocol = 16 := by
    unfold ivSize
    split
    · exact .inl rfl
    · exact .inr rfl
  have hround : (CP.newPinEncSize.toNat + 15) / 16 * 16 = CP.newPinEncSize.toNat := by omega
  obtain ⟨key, mac, w₁, newPin, hecdh, hdecrypt, hnew⟩ :=
    hreceives.decrypts hcbc (by decide) (by decide) hsize (by omega)
  have hpin : w₁.pinState = w.pinState := (touches_ecdh .pinState (by decide)).ok hecdh
  have hlen := newPinLen_eq hfits hlast hnew
  unfold updatePinIfVerified
  rw [ends_bind, ends_failIf]
  refine ⟨fun _ => .inr rfl, fun _ => ?_⟩
  rw [ends_bind]
  refine ends_of_ok hecdh ?_
  rw [ends_bind, ends_failIf]
  refine ⟨fun _ => .inr hpin, fun _ => ?_⟩
  dsimp only
  rw [hround, hdecrypt, ends_bind]
  refine ends_of_ok (show ctapCheck (.ok newPin) w₁ = .ok newPin w₁ from rfl) ?_
  rw [hlen, ends_bind, ends_failIf]
  refine ⟨fun _ => .inr hpin, fun hbounds => ?_⟩
  have hlength : PinLength pin := by
    unfold PinLength
    omega
  rw [ends_bind]
  refine ends_of_runs (fun _ w₂ _ => ?_) fun _ _ _ => .inl hlength
  have htaken : newPin.toList.take (max pin.length 1) = pin := by
    have hpad : newPin.toList.take 64 = (pin ++ List.replicate 64 0).take 64 := by
      rw [hnew]
      exact Bytes.toList_ofList pin
    have htake := congrArg (List.take pin.length) hpad
    rw [List.take_take, List.take_take, Nat.min_eq_left hfits, List.take_left] at htake
    rwa [Nat.max_eq_left (by omega)]
  obtain ⟨iv, w₃, hstore, hstored⟩ := storePin_ok (P := P) pin w₂
  rw [htaken]
  refine ends_of_ok hstore ⟨hlength, ?_, fun _ => ?_⟩
  · have hset : w₃.state.isPinSet = 1 := congrArg Prod.fst hstored
    unfold clientPinIsSet
    rw [hset]
    rfl
  · unfold World.storedHash
    simp only [World.pinState, Prod.mk.injEq] at hstored
    rw [hstored.2.2.1, hstored.2.2.2]
    exact (hcbc _ _ 16 _ (by decide)).1

/-- authenticatorClientPIN with a new PIN. -/
theorem ctapClientPin_offered (hcbc : P.prims.CbcUndoes) {request : List UInt8}
    (hparse : parseClientPinRequest request = .ok CP) (hsub : CP.subCommand = 3 ∨ CP.subCommand = 4)
    (hoffer : w.OffersPin P CP pin) (hfits : pin.length ≤ 64) (hlast : ∀ b ∈ pin.getLast?, b ≠ 0) :
    Ends (ctapClientPin P request) w (fun _ w' => PinLength pin ∧ w'.HoldsPin P (P.prims.pinHash pin))
      fun _ w' => PinLength pin ∨ w'.pinState = w.pinState := by
  have hupdate {a : Bytes 32} {h : Option (Bytes 32)} :=
    updatePinIfVerified_offered hcbc hoffer hfits hlast (a := a) (h := h)
  have h₁ : CP.subCommand ≠ 1 := by omega
  have h₂ : CP.subCommand ≠ 2 := by omega
  unfold ctapClientPin
  rw [hparse, ends_bind]
  refine ends_of_ok (show ctapCheck (.ok CP) w = .ok CP w from rfl) ?_
  simp only [ends_bind, ends_failIf, if_neg h₁, if_neg h₂]
  refine ⟨fun _ => .inr trivial, fun _ => ⟨fun _ => .inr trivial, fun _ => ?_⟩⟩
  rcases hsub with hset | hchange
  · rw [if_pos hset]
    unfold setPin
    simp only [ends_bind, ends_failIf, ends_get]
    exact ⟨fun _ => .inr trivial, fun _ => ⟨fun _ => .inr trivial, fun _ => hupdate⟩⟩
  · rw [if_neg (by omega), if_pos hchange]
    unfold changePin
    simp only [ends_bind, ends_failIf, ends_get]
    exact ⟨fun _ => .inr trivial, fun _ => ⟨fun _ => .inr trivial, fun _ => ⟨fun _ => .inr trivial, fun _ =>
      ⟨fun _ => .inr trivial, fun _ => hupdate⟩⟩⟩⟩

end Offers

/-! ## Tokens -/

/-- A request for a token with the hash of a PIN, complete and for permissions that exist. -/
structure World.AsksToken (P : Platform) (w : World) (CP : ClientPin) (pin : List UInt8) : Prop where
  protocol : CP.pinProtocol = 1 ∨ CP.pinProtocol = 2
  keyAgreement : CP.keyAgreementPresent
  pinHash : CP.pinHashEncPresent
  passes : CP.PassesUnlocked
  notChange : CP.subCommand ≠ 4
  receives : w.Receives P CP (CP.pinHashEnc.toList.take (authParamSize CP.pinProtocol)) (P.prims.pinHash pin)

section Tokens

variable {P : Platform} {w w' : World} {CP : ClientPin} {pin : List UInt8} {hash : Bytes 16}

theorem pinMismatch_ends {α : Type} (proto : UInt8) (w : World) :
    Ends (pinMismatch P proto : CtapM α) w (fun _ _ => False) fun _ _ => True :=
  (pinMismatch_adds proto w).mono (fun _ _ h => h) fun _ _ _ => trivial

/-- The token is issued if and only if the hashes agree. -/
theorem addEncPinUvAuthToken_iff (hcbc : P.prims.CbcUndoes) (hw : w.HoldsPin P hash) (hopen : w.Unlocked)
    (hreceives : w.Receives P CP (CP.pinHashEnc.toList.take (authParamSize CP.pinProtocol))
      (P.prims.pinHash pin))
    (hproto : CP.pinProtocol = 1 ∨ CP.pinProtocol = 2) {perms : UInt8} {rpId : List UInt8} :
    Ends (addEncPinUvAuthToken P CP.keyAgreement.pubkey CP.pinHashEnc CP.pinProtocol perms rpId) w
      (fun enc _ => P.prims.pinHash pin = hash ∧ enc.length ≤ 48) fun _ _ => P.prims.pinHash pin ≠ hash := by
  have hsize : authParamSize CP.pinProtocol = 16 + ivSize CP.pinProtocol ∧
      authParamSize CP.pinProtocol ≤ 32 := by
    unfold authParamSize ivSize
    rcases hproto with h | h <;> rw [h] <;> decide
  obtain ⟨key, mac, w₁, out, hecdh, hdecrypt, hout⟩ :=
    hreceives.decrypts hcbc (by decide) (by decide) hsize.1 hsize.2
  have hpin : w₁.pinState = w.pinState := (touches_ecdh .pinState (by decide)).ok hecdh
  have htries : w₁.state.remainingTries = w.state.remainingTries := congrArg (fun x => x.2.1) hpin
  have hstored : w₁.storedHash P = hash := (hw.of_pinState hpin).stored (htries ▸ hopen.1)
  have hslice : out.slice 0 16 = P.prims.pinHash pin := by
    refine Bytes.ext_toList ?_
    rw [Bytes.toList_slice_of_le out (by decide), List.drop_zero, hout]
  unfold addEncPinUvAuthToken
  rw [ends_bind]
  refine ends_of_ok hecdh ?_
  dsimp only
  rw [hdecrypt, ends_bind]
  refine ends_of_ok (show ctapCheck (.ok out) w₁ = .ok out w₁ from rfl) ?_
  rw [hslice, ends_bind]
  let matched : Bool := P.prims.pinHash pin = w₁.storedHash P
  let w₂ : World := { w₁ with trace := w₁.trace ++ [.pinCompared matched] }
  refine ends_of_ok (show verifyAgainstStoredPin P (P.prims.pinHash pin) w₁ = .ok matched w₂ from rfl) ?_
  have hmatched : matched = true ↔ P.prims.pinHash pin = hash := by
    rw [← hstored]
    exact decide_eq_true_iff
  rw [ends_ite]
  refine ⟨fun hmatch => ?_, fun hmatch => ?_⟩
  · obtain ⟨w₃, hreset⟩ := resetPinAttempts_ok (P := P) w₂
    rw [ends_bind]
    refine ends_of_ok hreset ?_
    have hissued₂ : w₂.issued = w₁.issued := by simp [World.issued, w₂, Event.isIssue]
    have hchecks₂ : w₂.pinChecks = w₁.pinChecks ++ [true] := by
      simp [World.pinChecks, w₂, Event.pinCheck?, hmatch]
    have hissued : w₃.issued = w₂.issued := (touches_resetPinAttempts .issued (by decide)).ok hreset
    have hchecks : w₃.pinChecks = w₂.pinChecks := (touches_resetPinAttempts .pinChecks (by decide)).ok hreset
    -- nothing behind the comparison fails
    exact (addEnc_matched (hissued.trans hissued₂) (hchecks.trans hchecks₂)).mono
      (fun _ _ h => ⟨hmatched.mp hmatch, h.1⟩) fun _ _ h => h.elim
  · exact (pinMismatch_ends CP.pinProtocol w₂).mono (fun _ _ h => h.elim) fun _ _ _ => mt hmatched.mpr hmatch

theorem issueToken_iff (hcbc : P.prims.CbcUndoes) (hw : w.HoldsPin P hash) (hopen : w.Unlocked)
    (hasks : w.AsksToken P CP pin) {perms : UInt8} {rpId : List UInt8} :
    Ends (issueToken P CP perms rpId) w (fun _ _ => P.prims.pinHash pin = hash)
      fun _ _ => P.prims.pinHash pin ≠ hash := by
  unfold issueToken
  rw [ends_bind]
  refine ends_of_ok (show encode (responseEncoder.createMap 1) w = .ok ⟨[0xa1], 1199, 3⟩ w from rfl) ?_
  rw [ends_bind]
  refine ends_of_ok (show encode (Encoder.int ⟨[0xa1], 1199, 3⟩ 2) w = .ok ⟨[0xa1, 2], 1198, 2⟩ w from rfl) ?_
  rw [ends_bind]
  refine (addEncPinUvAuthToken_iff hcbc hw hopen hasks.receives hasks.protocol).mono
    (fun enc w₁ ⟨heq, hlen⟩ => ?_) fun _ _ h => h
  obtain ⟨map, encoder, hmap, hclose⟩ := encodeToken_ok hlen
  rw [ends_bind]
  refine ends_of_ok (show encode _ w₁ = .ok map w₁ from ctapCheck_eq_ok.mpr ⟨by rw [hmap]; rfl, rfl⟩) ?_
  rw [ends_bind]
  exact ends_of_ok (show encode _ w₁ = .ok encoder w₁ from ctapCheck_eq_ok.mpr ⟨by rw [hclose]; rfl, rfl⟩) heq

/-- authenticatorClientPIN with the hash of a PIN. -/
theorem ctapClientPin_iff (hcbc : P.prims.CbcUndoes) (hw : w.HoldsPin P hash) {request : List UInt8}
    (hparse : parseClientPinRequest request = .ok CP) (hasks : w.AsksToken P CP pin) :
    Ends (ctapClientPin P request) w (fun _ _ => P.prims.pinHash pin = hash ∧ w.Unlocked)
      fun _ _ => ¬ (P.prims.pinHash pin = hash ∧ w.Unlocked) := by
  have hissue (hopen : w.Unlocked) {perms : UInt8} {rpId : List UInt8} :
      Ends (issueToken P CP perms rpId) w (fun _ _ => P.prims.pinHash pin = hash ∧ w.Unlocked)
        fun _ _ => ¬ (P.prims.pinHash pin = hash ∧ w.Unlocked) :=
    (issueToken_iff hcbc hw hopen hasks).mono (fun _ _ h => ⟨h, hopen⟩) fun _ _ h hboth => h hboth.1
  have hproto : ¬ (CP.subCommand ≠ 1 ∧ CP.pinProtocol = 0) ∧
      ¬ (CP.subCommand ≠ 1 ∧ CP.pinProtocol ≠ 1 ∧ CP.pinProtocol ≠ 2) := by
    rcases hasks.protocol with h | h <;> simp [h]
  have hpresent : ¬ (¬ CP.keyAgreementPresent ∨ ¬ CP.pinHashEncPresent) :=
    not_or.mpr ⟨not_not.mpr hasks.keyAgreement, not_not.mpr hasks.pinHash⟩
  have hset : ¬ ¬ clientPinIsSet w = true := not_not.mpr hw.isSet
  have hsub : CP.subCommand = 5 ∨ CP.subCommand = 9 := by
    rcases hasks.passes with h | h | h
    · exact absurd h.1 hasks.notChange
    · exact .inl h.1
    · exact .inr h.1
  unfold ctapClientPin
  rw [hparse, ends_bind]
  refine ends_of_ok (show ctapCheck (.ok CP) w = .ok CP w from rfl) ?_
  simp only [ends_bind, ends_failIf]
  refine ⟨fun h => absurd h hproto.1, fun _ => ⟨fun h => absurd h hproto.2, fun _ => ?_⟩⟩
  rw [if_neg (by omega), if_neg (by omega), if_neg (by omega)]
  simp only [ends_bind, ends_failIf, ends_get]
  refine ⟨fun htries hboth => ?_, fun htries => ⟨fun hboot hboth => ?_, fun hboot => ?_⟩⟩
  · have hle : w.state.remainingTries ≤ 0 := of_decide_eq_true htries
    exact Int8.not_lt.mpr hle hboth.2.1
  · have hle : w.pinBootAttemptsLeft ≤ 0 := of_decide_eq_true hboot
    exact Int8.not_lt.mpr hle hboth.2.2
  have hopen : w.Unlocked := by
    constructor
    · simpa [clientPinIsLocked] using htries
    · simpa [clientPinIsBootLocked] using hboot
  rw [if_neg hasks.notChange]
  rcases hasks.passes with h | ⟨hfive, hperms, hzero, hrp⟩ | ⟨hnine, hperms, hzero, hmask, hrp⟩
  · exact absurd h.1 hasks.notChange
  · rw [if_pos hfive]
    unfold getPinToken
    simp only [ends_bind, ends_failIf, ends_get]
    refine ⟨fun h => absurd h hset, fun _ => ⟨fun h => absurd h hpresent, fun _ =>
      ⟨fun h => ?_, fun _ => hissue hopen⟩⟩⟩
    rcases h with h | h | h
    · exact absurd h hperms
    · exact absurd hzero h
    · exact absurd hrp (Nat.pos_iff_ne_zero.mp h)
  · rw [if_neg (by omega), if_pos hnine]
    unfold getPinUvAuthTokenUsingPinWithPermissions
    simp only [ends_bind, ends_failIf, ends_get]
    refine ⟨fun h => absurd h hset, fun _ => ⟨fun h => absurd h hpresent, fun _ => ⟨fun h => ?_, fun _ =>
      ⟨fun h => absurd hmask h, fun _ => ⟨fun h => absurd h.2 (hrp h.1), fun _ => hissue hopen⟩⟩⟩⟩⟩
    rcases h with h | h
    · exact absurd hperms h
    · exact absurd h hzero

end Tokens

/-! ## The round trip -/

/-- setPIN or changePIN for a PIN of at most 64 bytes that does not end in a zero byte. -/
structure Served.OffersPin (P : Platform) (r : Served) (pin : List UInt8) : Prop where
  fits : pin.length ≤ 64
  last : ∀ b ∈ pin.getLast?, b ≠ 0
  request : ∃ CP, r.ForNewPin CP ∧ r.before.OffersPin P CP pin

/-- A request for a token with the hash of a PIN. -/
def Served.AsksToken (P : Platform) (r : Served) (pin : List UInt8) : Prop :=
  commandOf r.cmd = .clientPin ∧ ∃ CP, parseClientPinRequest r.request = .ok CP ∧ r.before.AsksToken P CP pin

section RoundTrip

variable {P : Platform} {w : World} {r g : Served} {pin q : List UInt8} {hash : Bytes 16}
  {later earlier : List Entry}

theorem dispatch_clientPin_eq {request : List UInt8} :
    dispatch P .clientPin request w = ctapClientPin P request w := by
  unfold dispatch
  rw [get_bind, failIf_bind_of_not (by simp [Command.checksLock]), get_bind,
    failIf_bind_of_not (by simp [Command.checksLock])]

/-- A request of authenticatorClientPIN, from what holds of every way the command can end. -/
theorem Served.Valid.clientPin (hv : r.Valid P) (hc : commandOf r.cmd = .clientPin) (Q E : World → Prop)
    (h : ∀ inputs, Ends (ctapClientPin P r.request) (r.before.withInputs inputs) (fun _ => Q) fun _ => E) :
    ∃ w₁, w₁.pinState = r.after.pinState ∧ (r.status = .ok ∧ Q w₁ ∨ r.status ≠ .ok ∧ E w₁) := by
  obtain ⟨inputs, hr⟩ := hv
  obtain ⟨w₁, hafter, hd⟩ := ctapRequest_cases hr
  rw [hc, dispatch_clientPin_eq] at hd
  refine ⟨w₁, by rw [hafter]; rfl, ?_⟩
  rcases hd with ⟨hok, hd⟩ | ⟨e, herr, -, hd⟩
  · exact .inl ⟨hok, (h inputs).ok hd⟩
  · exact .inr ⟨by rw [herr]; exact nofun, (h inputs).error hd⟩

theorem Served.Valid.offered (hcbc : P.prims.CbcUndoes) (hv : r.Valid P) (h : r.OffersPin P pin) :
    (r.status = .ok → PinLength pin ∧ r.after.HoldsPin P (P.prims.pinHash pin)) ∧
      (¬ PinLength pin → r.status ≠ .ok ∧ r.after.pinState = r.before.pinState) := by
  obtain ⟨hfits, hlast, CP, ⟨hc, hparse, hsub⟩, hsize, hreceives⟩ := h
  obtain ⟨w₁, hpin, hend⟩ := hv.clientPin hc (fun w' => PinLength pin ∧ w'.HoldsPin P (P.prims.pinHash pin))
    (fun w' => PinLength pin ∨ w'.pinState = r.before.pinState) fun inputs =>
    ctapClientPin_offered (w := r.before.withInputs inputs) hcbc hparse hsub
      ⟨hsize, hreceives.of_token rfl⟩ hfits hlast
  rcases hend with ⟨hok, hlength, hholds⟩ | ⟨hno, hkept⟩
  · exact ⟨fun _ => ⟨hlength, hholds.of_pinState hpin.symm⟩, fun h => absurd hlength h⟩
  · exact ⟨fun h => absurd h hno, fun h => ⟨hno, hpin.symm.trans (hkept.resolve_left h)⟩⟩

theorem Served.Valid.asked (hcbc : P.prims.CbcUndoes) (hv : r.Valid P) (hw : r.before.HoldsPin P hash)
    (h : r.AsksToken P q) : r.status = .ok ↔ P.prims.pinHash q = hash ∧ r.before.Unlocked := by
  obtain ⟨hc, CP, hparse, hasks⟩ := h
  obtain ⟨w₁, -, hend⟩ := hv.clientPin hc (fun _ => P.prims.pinHash q = hash ∧ r.before.Unlocked)
    (fun _ => ¬ (P.prims.pinHash q = hash ∧ r.before.Unlocked)) fun inputs =>
    ctapClientPin_iff (w := r.before.withInputs inputs) hcbc (hw.of_pinState rfl) hparse
      { hasks with receives := hasks.receives.of_token rfl }
  rcases hend with ⟨hok, hboth⟩ | ⟨hno, hnot⟩
  · exact iff_of_true hok hboth
  · exact iff_of_false hno hnot

/-- **A PIN that was set opens the device, and no other one does.**  A setPIN or changePIN that succeeds was for
4 to 63 bytes; afterwards, also after power cycles, a token is issued for a PIN exactly if its hash begins like
that of the new one and an attempt is left, whatever protocols the two requests use.  A PIN of any other length
is refused and changes neither the PIN nor the attempts. -/
theorem pin_round_trip (hcbc : P.prims.CbcUndoes) (hr : Run P (later ++ .request g :: earlier) w)
    (hoffer : g.OffersPin P pin) (hspares : ∀ r, Entry.request r ∈ later → r.SparesPin) :
    (g.status = .ok → PinLength pin ∧ ∀ r q, Entry.request r ∈ later → r.AsksToken P q →
      (r.status = .ok ↔ P.prims.pinHash q = P.prims.pinHash pin ∧ r.before.Unlocked)) ∧
    (¬ PinLength pin → g.status ≠ .ok ∧ g.after.pinState = g.before.pinState) := by
  obtain ⟨hstored, hrefused⟩ := hr.suffix.of_request.2.1.offered hcbc hoffer
  refine ⟨fun hok => ?_, hrefused⟩
  obtain ⟨hlength, hholds⟩ := hstored hok
  refine ⟨hlength, fun r q hmem hasks => ?_⟩
  obtain ⟨hv, hw⟩ := (hr.holdsPin hholds hspares).2 r hmem
  exact hv.asked hcbc hw hasks

end RoundTrip

/-! ## A run -/

theorem simCbc_undoes : simPlatform.prims.CbcUndoes :=
  fun k iv n b _ => ⟨simCipher_undoes k iv n b, simCipher_undoes k iv n b⟩

/-- The stand-in for `uECC_shared_secret` always comes to the same point. -/
theorem receives_sim {CP : ClientPin} {w : World} {sent : List UInt8} {m : Nat} {plain : Bytes m}
    (hproto : CP.pinProtocol = 1) (hsent : sent = simEncrypt plain) : w.Receives simPlatform CP sent plain := by
  refine ⟨Bytes.zero 32, Bytes.zero 16, fun _ => rfl, ?_⟩
  rw [hsent, hproto]
  rfl

theorem offersPin_of_setPinRequest {r : Served} (hcmd : r.cmd = 6) (hreq : r.request = setPinRequest "1234") :
    r.OffersPin simPlatform (ascii "1234") := by
  obtain ⟨CP, hparse, htest⟩ := parse_of_test (x := parseClientPinRequest (setPinRequest "1234"))
    (p := fun CP => decide (CP.subCommand = 3 ∧ CP.pinProtocol = 1 ∧ CP.newPinEncSize = 64 ∧
      CP.newPinEnc.toList.take 64 = simEncrypt (Bytes.ofList 64 (ascii "1234")))) (by decide +kernel)
  obtain ⟨hsub, hproto, hsize, henc⟩ := of_decide_eq_true htest
  refine ⟨by decide +kernel, by decide +kernel, CP, ⟨by rw [hcmd]; rfl, by rw [hreq]; exact hparse, .inl hsub⟩, ?_, ?_⟩
  · rw [hproto, hsize]
    rfl
  · rw [hsize]
    exact receives_sim hproto henc

/-- A request for a token with the hash of `pin` under protocol 1. -/
def ClientPin.asksTokenFor (pin : String) (CP : ClientPin) : Bool :=
  CP.subCommand = 9 && CP.pinProtocol = 1 && CP.keyAgreementPresent && CP.pinHashEncPresent &&
    CP.permissionsPresent && CP.permissions = 1 && CP.rpId.size ≠ 0 &&
    CP.pinHashEnc.toList.take 16 = simEncrypt (simPlatform.prims.pinHash (ascii pin))

theorem asksToken_of_asksTokenFor {r : Served} (hcmd : r.cmd = 6) {pin : String} {CP : ClientPin}
    (hparse : parseClientPinRequest r.request = .ok CP) (h : CP.asksTokenFor pin = true) :
    r.AsksToken simPlatform (ascii pin) ∧ r.SparesPin := by
  simp only [ClientPin.asksTokenFor, Bool.and_eq_true, decide_eq_true_eq] at h
  obtain ⟨⟨⟨⟨⟨⟨⟨hsub, hproto⟩, hkey⟩, hhash⟩, hpresent⟩, hperms⟩, hrp⟩, henc⟩ := h
  refine ⟨⟨by rw [hcmd]; rfl, CP, hparse, .inl hproto, hkey, hhash,
    .inr (.inr ⟨hsub, hpresent, ?_, ?_, fun _ => hrp⟩), by omega, ?_⟩, ?_, ?_⟩
  · rw [hperms]
    decide
  · rw [hperms]
    decide
  · rw [hproto]
    exact receives_sim hproto henc
  · simp [Served.resets, hcmd, commandOf]
  · rintro - CP' ⟨-, hparse', hsub'⟩
    obtain rfl := Except.ok.inj (hparse.symm.trans hparse')
    omega

/-- What is asked of the requests, and whether the device is unlocked for the second of them. -/
def setAndEntered : List Served → Bool
  | [r', r, g] => g.cmd = 6 && g.request = setPinRequest "1234" && g.status = .ok &&
      r.cmd = 6 && r.request = getTokenRequest "1234" 1 "a" && 0 < r.before.state.remainingTries &&
      0 < r.before.pinBootAttemptsLeft && r'.cmd = 6 && r'.request = getTokenRequest "0000" 1 "a"
  | _ => false

theorem setAndEntered_spec {rs : List Served} (h : setAndEntered rs = true) : ∃ r' r g, rs = [r', r, g] ∧
    (g.cmd = 6 ∧ g.request = setPinRequest "1234" ∧ g.status = .ok) ∧
    (r.cmd = 6 ∧ r.request = getTokenRequest "1234" 1 "a" ∧ r.before.Unlocked) ∧
    r'.cmd = 6 ∧ r'.request = getTokenRequest "0000" 1 "a" := by
  unfold setAndEntered at h
  split at h
  · rename_i r' r g
    simp only [Bool.and_eq_true, decide_eq_true_eq] at h
    exact ⟨r', r, g, rfl, ⟨h.1.1.1.1.1.1.1.1, h.1.1.1.1.1.1.1.2, h.1.1.1.1.1.1.2⟩,
      ⟨h.1.1.1.1.1.2, h.1.1.1.1.2, h.1.1.1.2, h.1.1.2⟩, h.1.2, h.2⟩
  · cases h

/-- A PIN is set and entered, and then another one is entered. -/
theorem pin_round_trip_sim : ∃ (w : World) (g r r' : Served),
    Run simPlatform ([.request r', .request r] ++ .request g :: [.boot simStart]) w ∧ g.status = .ok ∧
      (r.AsksToken simPlatform (ascii "1234") ∧ r.status = .ok) ∧
      r'.AsksToken simPlatform (ascii "0000") ∧ r'.status ≠ .ok := by
  have heval : (serveAll simPlatform simStart [touched 6 (setPinRequest "1234"),
      touched 6 (getTokenRequest "1234" 1 "a"), touched 6 (getTokenRequest "0000" 1 "a")]).any
      (fun x => setAndEntered x.2) = true := by decide +kernel
  obtain ⟨⟨w, rs⟩, hrs, heval⟩ := (Option.any_eq_true _ _).mp heval
  obtain ⟨r', r, g, rfl, ⟨hgcmd, hgreq, hgok⟩, ⟨hcmd, hreq, hopen⟩, hcmd', hreq'⟩ := setAndEntered_spec heval
  have hrun : Run simPlatform ([.request r', .request r] ++ .request g :: [.boot simStart]) w :=
    serveAll_run run_simStart hrs
  obtain ⟨CP, hparse, htest⟩ := parse_of_test (x := parseClientPinRequest (getTokenRequest "1234" 1 "a"))
    (p := ClientPin.asksTokenFor "1234") (by decide +kernel)
  obtain ⟨CP', hparse', htest'⟩ := parse_of_test (x := parseClientPinRequest (getTokenRequest "0000" 1 "a"))
    (p := ClientPin.asksTokenFor "0000") (by decide +kernel)
  obtain ⟨hasks, hspares⟩ := asksToken_of_asksTokenFor hcmd (by rw [hreq]; exact hparse) htest
  obtain ⟨hasks', hspares'⟩ := asksToken_of_asksTokenFor hcmd' (by rw [hreq']; exact hparse') htest'
  obtain ⟨hset, -⟩ := pin_round_trip simCbc_undoes hrun (offersPin_of_setPinRequest hgcmd hgreq) fun e he => by
    rcases List.mem_cons.mp he with heq | he
    · cases heq
      exact hspares'
    · cases List.mem_singleton.mp he
      exact hspares
  obtain ⟨-, htokens⟩ := hset hgok
  refine ⟨w, g, r, r', hrun, hgok, ⟨hasks, (htokens r _ (by simp) hasks).mpr ⟨rfl, hopen⟩⟩, hasks',
    fun hok => ?_⟩
  have hsame := ((htokens r' _ (by simp) hasks').mp hok).1
  revert hsame
  decide +kernel

end TkeyFido2
