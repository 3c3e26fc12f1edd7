import TkeyFido2.Ctap.MakeCredentialStages
import TkeyFido2.Ctap.Simulator

/-!
# The exclude list

The loop over the exclude list parses each entry into the same buffer.  A round that is left with
`continue` does not move on, so that the loop stays at the first entry that is neither hidden by its
credProtect level nor excludes the request.
-/

namespace TkeyFido2

open Cbor Prog

variable {P : Platform} {w w' : World}

/-! ## Entries -/

/-- What the parser takes from a descriptor: the length of the ID, the bytes that it copies, and the type. -/
structure DescriptorEntry where
  length : Nat
  written : List UInt8
  type : CredType
  deriving DecidableEq

namespace DescriptorEntry

/-- The descriptor buffer once an entry is parsed into it. -/
def into (r : DescriptorEntry) (cred : CredentialDescriptor) : CredentialDescriptor :=
  { cred with type := r.type, id := ⟨cred.id.raw.patch 0 r.written⟩ }

/-- An ID that is as long as those of this device: of a FIDO2 credential or a U2F key handle. -/
def Whole (r : DescriptorEntry) : Prop := r.length = 57 ∨ r.length = u2fKeyHandleSize

instance (r : DescriptorEntry) : Decidable r.Whole := inferInstanceAs (Decidable (_ ∨ _))

/-- Parsing an entry once more changes nothing. -/
theorem into_into (r : DescriptorEntry) (cred : CredentialDescriptor) : r.into (r.into cred) = r.into cred := by
  unfold into
  rw [Bytes.patch_patch]

end DescriptorEntry

/-- The text that the parser compares with the type of a public key. -/
def readKeyType (length : Nat) (val : CborValue) : Parse CredType := do
  rejectIf (val.type ≠ .textString) .missingParameter
  let r := copyTextString val 12
  match r.result with
  | .error (.err .outOfMemory) => pure .unknown
  | .error e => cborCheck (.error e)
  | .ok _ =>
    if cstr r.written = ascii "public-key" then
      pure (if length = u2fKeyHandleSize then .ctap1 else .pubKey)
    else pure .unknown

/-- The entry at the read position. -/
def readDescriptor (arr : CborValue) : Parse DescriptorEntry := do
  rejectIf (arr.type ≠ .map) .invalidCbor
  let val ← cborCheck (mapFindValue arr (ascii "id"))
  rejectIf (val.type ≠ .byteString) .missingParameter
  let sz ← cborCheck (calculateStringLength val)
  if 57 < sz then pure ⟨sz, [], .unknown⟩
  else
    let r := copyByteString val 57
    let (length, _) ← cborCheck r.result
    let val ← cborCheck (mapFindValue arr (ascii "type"))
    let type ← readKeyType length val
    pure ⟨length, r.written, type⟩

section Outcome

variable {σ α : Type} {x : Parse α} {k : α → EStateM Stop σ Unit} {s : σ}

/-- The state that a program leaves when it succeeds. -/
def outcome (m : EStateM Stop σ Unit) (s : σ) : Parse σ :=
  match m s with
  | .ok _ s' => .ok s'
  | .error e _ => .error e

theorem outcome_ctapCheck : outcome (ctapCheck x >>= k) s = x >>= fun a => outcome (k a) s := by
  cases x with
  | ok a => rfl
  | error e => rfl

theorem outcome_modify {f : σ → σ} {k : PUnit → EStateM Stop σ Unit} :
    outcome (modify f >>= k) s = outcome (k ⟨⟩) (f s) := rfl

theorem except_map_bind {β γ : Type} {x : Parse β} {f : β → Parse α} {g : α → γ} :
    (x >>= f).map g = x >>= fun a => (f a).map g := by
  cases x with
  | ok a => rfl
  | error e => rfl

end Outcome

/-- The part of the parser behind the ID, for a descriptor whose type is set by the length of the ID. -/
theorem outcome_keyType {arr : CborValue} {length : Nat} {c : CredentialDescriptor}
    (hc : c.type = if length = u2fKeyHandleSize then .ctap1 else .none) :
    outcome (do
      let val ← ctapCheck (cborCheck (mapFindValue arr (ascii "type")))
      ctapCheck (rejectIf (val.type ≠ .textString) .missingParameter)
      let r := copyTextString val 12
      match r.result with
      | .error (.err .outOfMemory) => modify fun cred => { cred with type := .unknown }
      | .error e => ctapCheck (cborCheck (.error e))
      | .ok _ =>
        if cstr r.written = ascii "public-key" then
          modify fun cred => { cred with type := if cred.type = .none then .pubKey else cred.type }
        else modify fun cred => { cred with type := .unknown }) c
      = (cborCheck (mapFindValue arr (ascii "type")) >>= readKeyType length).map
          fun t => { c with type := t } := by
  rw [outcome_ctapCheck, except_map_bind]
  refine bind_congr fun val => ?_
  unfold readKeyType
  rw [outcome_ctapCheck, except_map_bind]
  refine bind_congr fun _ => ?_
  dsimp only
  split
  · rfl
  · rename_i e he _
    cases e with
    | err e => rfl
    | halt h => rfl
  · by_cases hkey : cstr (copyTextString val 12).written = ascii "public-key"
    · rw [if_pos hkey, if_pos hkey]
      show Except.ok { c with type := if c.type = CredType.none then CredType.pubKey else c.type } = Except.ok _
      rw [hc]
      by_cases hlen : length = u2fKeyHandleSize
      · rw [if_pos hlen, if_pos hlen]
        rfl
      · rw [if_neg hlen, if_neg hlen]
        rfl
    · rw [if_neg hkey, if_neg hkey]
      rfl

theorem parseDescriptor_eq (cred : CredentialDescriptor) (arr : CborValue) :
    parseDescriptor cred arr = (readDescriptor arr).map (·.into cred) := by
  have hpatch (c : CredentialDescriptor) : (⟨c.id.raw.patch 0 []⟩ : CredentialId) = c.id := by rw [Bytes.patch_nil]
  have houtcome : parseDescriptor cred arr = outcome (ctapParsePubkeyCredentialDescriptor arr) cred := by
    unfold parseDescriptor outcome
    cases ctapParsePubkeyCredentialDescriptor arr cred with
    | ok u c => rfl
    | error e c => rfl
  rw [houtcome]
  unfold ctapParsePubkeyCredentialDescriptor readDescriptor
  rw [outcome_modify, outcome_ctapCheck, except_map_bind]
  refine bind_congr fun _ => ?_
  rw [outcome_ctapCheck, except_map_bind]
  refine bind_congr fun val => ?_
  rw [outcome_ctapCheck, except_map_bind]
  refine bind_congr fun _ => ?_
  rw [outcome_ctapCheck, except_map_bind]
  refine bind_congr fun sz => ?_
  by_cases hlong : 57 < sz
  · rw [if_pos hlong, if_pos hlong]
    show Except.ok _ = Except.ok (DescriptorEntry.into ⟨sz, [], .unknown⟩ cred)
    unfold DescriptorEntry.into
    rw [hpatch]
  rw [if_neg hlong, if_neg hlong]
  dsimp only
  rw [outcome_modify, outcome_ctapCheck, except_map_bind]
  refine bind_congr fun x => ?_
  obtain ⟨length, next⟩ := x
  dsimp only
  have hinto : ∀ c : CredentialDescriptor, c.id = ⟨cred.id.raw.patch 0 (copyByteString val 57).written⟩ →
      c.user = cred.user →
      (cborCheck (mapFindValue arr (ascii "type")) >>= readKeyType length).map (fun t => { c with type := t })
        = (cborCheck (mapFindValue arr (ascii "type")) >>= fun val' => readKeyType length val' >>= fun type =>
            (pure ⟨length, (copyByteString val 57).written, type⟩ : Parse DescriptorEntry)).map
              (·.into cred) := by
    intro c hid huser
    rw [except_map_bind, except_map_bind]
    refine bind_congr fun val' => ?_
    cases readKeyType length val' with
    | ok t =>
      show Except.ok _ = Except.ok _
      rw [hid, huser]
      rfl
    | error e => rfl
  by_cases hlen : length = u2fKeyHandleSize
  · unfold onlyIf
    rw [if_pos hlen, outcome_modify]
    exact (outcome_keyType (if_pos hlen).symm).trans (hinto _ rfl rfl)
  · unfold onlyIf
    rw [if_neg hlen]
    exact (outcome_keyType (if_neg hlen).symm).trans (hinto _ rfl rfl)

theorem parseDescriptor_of_read {cred : CredentialDescriptor} {arr : CborValue} {r : DescriptorEntry}
    (h : readDescriptor arr = .ok r) : parseDescriptor cred arr = .ok (r.into cred) := by
  rw [parseDescriptor_eq, h]
  rfl

/-- The entries of an array of `n` items. -/
def readDescriptors : Nat → CborValue → Parse (List DescriptorEntry)
  | 0, _ => pure []
  | n + 1, arr => do
    let r ← readDescriptor arr
    let arr ← cborCheck (advance arr)
    let rs ← readDescriptors n arr
    pure (r :: rs)

theorem checkDescriptors_ok {n : Nat} {arr : CborValue} {u : Unit} (h : checkDescriptors n arr = .ok u) :
    ∃ rs, readDescriptors n arr = .ok rs := by
  induction n generalizing arr with
  | zero => exact ⟨[], rfl⟩
  | succ n ih =>
    unfold checkDescriptors at h
    obtain ⟨cred, hcred, h⟩ := except_bind_eq_ok.mp h
    obtain ⟨arr', harr, h⟩ := except_bind_eq_ok.mp h
    obtain ⟨rs, hrs⟩ := ih h
    rw [parseDescriptor_eq] at hcred
    cases hr : readDescriptor arr with
    | ok r =>
      refine ⟨r :: rs, ?_⟩
      unfold readDescriptors
      rw [hr, except_ok_bind, harr, except_ok_bind, hrs]
      rfl
    | error e =>
      rw [hr] at hcred
      cases hcred

/-- The entries of the exclude list of a request. -/
def MakeCredential.excludeEntries (MC : MakeCredential) : List DescriptorEntry :=
  match MC.excludeList with
  | some arr => (readDescriptors MC.excludeListSize arr).toOption.getD []
  | none => []

/-! ## The loop -/

/-- A user presence test would succeed. -/
def World.UserPresent (w : World) : Prop := w.upDisabled = false ∧ w.inputs.presence w.presencePos = true

instance (w : World) : Decidable w.UserPresent := inferInstanceAs (Decidable (_ ∧ _))

theorem ends_requireUserPresence : Ends requireUserPresence w (fun _ _ => w.UserPresent)
    fun e _ => ¬ w.UserPresent ∧ e ≠ .status .credentialExcluded := by
  unfold requireUserPresence ctap2UserPresenceTest ctapUserPresenceTest World.UserPresent
  simp only [ends_bind, ends_get, ends_ite]
  refine ⟨fun hdis => ⟨by simp [hdis], by simp⟩, fun hdis => ?_⟩
  rw [ends_modifyGet, ends_emit, ends_pure]
  cases hp : w.inputs.presence w.presencePos with
  | true => exact ⟨by simpa using hdis, rfl⟩
  | false => exact ⟨by simp, by simp⟩

/-- What the checks of the entries come to, each parsed into the buffer that the one before it left. -/
def checksFrom (check : CredentialDescriptor → Option Bool) :
    CredentialDescriptor → List DescriptorEntry → List (Option Bool)
  | _, [] => []
  | cred, r :: rs => check (r.into cred) :: checksFrom check (r.into cred) rs

/-- Only hidden entries stand before one that excludes the request. -/
def ReachesExcluded (checks : List (Option Bool)) : Prop :=
  ∃ k rest, checks = List.replicate k (some false) ++ some true :: rest

section Reaches

variable {checks : List (Option Bool)}

theorem not_reachesExcluded_nil : ¬ ReachesExcluded [] := by
  rintro ⟨k, rest, h⟩
  exact absurd h (by simp)

theorem reachesExcluded_excluded : ReachesExcluded (some true :: checks) := ⟨0, checks, rfl⟩

theorem not_reachesExcluded_none : ¬ ReachesExcluded (none :: checks) := by
  rintro ⟨k, rest, h⟩
  cases k with
  | zero => exact absurd (List.cons.inj h).1 (by simp)
  | succ k => exact absurd (List.cons.inj h).1 (by simp)

theorem reachesExcluded_hidden : ReachesExcluded (some false :: checks) ↔ ReachesExcluded checks := by
  constructor
  · rintro ⟨k, rest, h⟩
    cases k with
    | zero => exact absurd (List.cons.inj h).1 (by simp)
    | succ k => exact ⟨k, rest, (List.cons.inj h).2⟩
  · rintro ⟨k, rest, rfl⟩
    exact ⟨k + 1, rest, rfl⟩

end Reaches

section Loop

variable {h : Bytes 32} {l : Bytes 16} {slot : Slot}

/-- An entry that is left with `continue` is parsed again until the rounds are used up. -/
theorem excludeLoop_stuck {it : CborValue} {r : DescriptorEntry} (hr : readDescriptor it = .ok r)
    {cred : CredentialDescriptor} (hnone : excludeCheck P w h l slot (r.into cred) = none) (n : Nat) :
    excludeLoop P h l slot n (r.into cred) it w = .ok () w := by
  induction n with
  | zero => rfl
  | succ n ih =>
    unfold excludeLoop
    rw [parseDescriptor_of_read hr, r.into_into]
    rw [bind_of_ok (show ctapCheck (.ok (r.into cred)) w = .ok (r.into cred) w from rfl), get_bind, hnone]
    exact ih

theorem excludeLoop_ends {n : Nat} {it : CborValue} {rs : List DescriptorEntry}
    (hrs : readDescriptors n it = .ok rs) {cred : CredentialDescriptor} :
    Ends (excludeLoop P h l slot n cred it) w
      (fun _ _ => ¬ ReachesExcluded (checksFrom (excludeCheck P w h l slot) cred rs))
      fun e _ => ReachesExcluded (checksFrom (excludeCheck P w h l slot) cred rs) ∧
        (e = .status .credentialExcluded ↔ w.UserPresent) := by
  induction n generalizing it cred rs with
  | zero =>
    obtain rfl := Except.ok.inj hrs
    exact not_reachesExcluded_nil
  | succ n ih =>
    unfold readDescriptors at hrs
    obtain ⟨r, hr, hrs⟩ := except_bind_eq_ok.mp hrs
    obtain ⟨it', hit, hrs⟩ := except_bind_eq_ok.mp hrs
    obtain ⟨rs', hrs', hrs⟩ := except_bind_eq_ok.mp hrs
    obtain rfl := except_pure_eq_ok.mp hrs
    unfold excludeLoop checksFrom
    rw [parseDescriptor_of_read hr]
    rw [ends_bind]
    refine ends_of_ok (show ctapCheck (.ok (r.into cred)) w = .ok (r.into cred) w from rfl) ?_
    rw [ends_bind, ends_get]
    rcases hcheck : excludeCheck P w h l slot (r.into cred) with _ | _ | _
    · exact ends_of_ok (excludeLoop_stuck hr hcheck n) not_reachesExcluded_none
    · dsimp only
      rw [hit, reachesExcluded_hidden]
      exact ih hrs'
    · dsimp only
      rw [ends_bind]
      refine ends_requireUserPresence.mono (fun _ _ hup => ?_) fun e _ he => ?_
      · exact ⟨reachesExcluded_excluded, by simp [hup]⟩
      · exact ⟨reachesExcluded_excluded, by simp [he.1, he.2]⟩

end Loop

/-! ## authenticatorMakeCredential -/

/-- What the loop finds in the entries. -/
def MakeCredential.excludeChecks (P : Platform) (w : World) (h : Bytes 32) (l : Bytes 16)
    (MC : MakeCredential) : List (Option Bool) :=
  checksFrom (excludeCheck P w h l (slotOf MC.pinProtocol)) w.inputs.stackCred MC.excludeEntries

/-- An entry that is a credential of the RP on this device, visible at the current verification status and
still stored if it is discoverable. -/
def DescriptorEntry.Excludes (P : Platform) (w : World) (h : Bytes 32) (l : Bytes 16) (slot : Slot)
    (r : DescriptorEntry) : Prop := r.Whole ∧ excludeCheck P w h l slot (r.into {}) = some true

instance (h : Bytes 32) (l : Bytes 16) (slot : Slot) (r : DescriptorEntry) :
    Decidable (r.Excludes P w h l slot) := inferInstanceAs (Decidable (_ ∧ _))

/-- When the request ends with `CTAP2_ERR_CREDENTIAL_EXCLUDED`. -/
theorem ctapMakeCredential_excluded {request : List UInt8} {MC : MakeCredential} {h : Bytes 32} {l : Bytes 16}
    (hchecks : makeCredentialChecks P request w = .ok (MC, h, l) w') :
    (∃ w'', ctapMakeCredential P request w = .error (.status .credentialExcluded) w'') ↔
      w'.UserPresent ∧ ReachesExcluded (MC.excludeChecks P w' h l) := by
  have hends : Ends (checkExcludeList P MC h l) w'
      (fun _ _ => ¬ ReachesExcluded (MC.excludeChecks P w' h l))
      fun e _ => ReachesExcluded (MC.excludeChecks P w' h l) ∧
        (e = .status .credentialExcluded ↔ w'.UserPresent) := by
    unfold checkExcludeList MakeCredential.excludeChecks MakeCredential.excludeEntries
    cases hlist : MC.excludeList with
    | none => exact not_reachesExcluded_nil
    | some arr =>
      obtain ⟨_, hcheck⟩ := (parseMakeCredential_ok (makeCredentialChecks_ok hchecks).parse).excludeList arr hlist
      obtain ⟨rs, hrs⟩ := checkDescriptors_ok hcheck
      dsimp only
      rw [ends_bind, ends_get, hrs]
      exact excludeLoop_ends hrs
  rw [ctapMakeCredential_eq, bind_of_ok hchecks]
  constructor
  · rintro ⟨w'', herr⟩
    rcases bind_eq_error.mp herr with herr | ⟨u, w₂, -, herr⟩
    · obtain ⟨hreach, hup⟩ := hends.error herr
      exact ⟨hup.mp rfl, hreach⟩
    · have hmem : CtapError.credentialExcluded ∈ responseErrors := raises_makeCredentialResponse _ _ _ herr
      exact absurd hmem (by decide)
  · rintro ⟨hup, hreach⟩
    cases hrun : checkExcludeList P MC h l w' with
    | ok u w₂ => exact absurd hreach (hends.ok hrun)
    | error e w₂ =>
      obtain rfl := (hends.error hrun).2.mpr hup
      exact ⟨w₂, bind_eq_error.mpr (.inl hrun)⟩

/-- The exclude list is honoured if and only if the loop gets to an entry that excludes the request exactly
where the list has one. -/
theorem excludeList_honoured_iff {request : List UInt8} {MC : MakeCredential} {h : Bytes 32} {l : Bytes 16}
    (hchecks : makeCredentialChecks P request w = .ok (MC, h, l) w') :
    ((∃ w'', ctapMakeCredential P request w = .error (.status .credentialExcluded) w'') ↔
        w'.UserPresent ∧ ∃ r ∈ MC.excludeEntries, r.Excludes P w' h l (slotOf MC.pinProtocol)) ↔
      (w'.UserPresent →
        ((∃ r ∈ MC.excludeEntries, r.Excludes P w' h l (slotOf MC.pinProtocol)) ↔
          ReachesExcluded (MC.excludeChecks P w' h l))) := by
  rw [ctapMakeCredential_excluded hchecks]
  constructor
  · intro hiff hup
    constructor
    · intro hsome
      exact (hiff.mpr ⟨hup, hsome⟩).2
    · intro hreach
      exact (hiff.mp ⟨hup, hreach⟩).2
  · intro hiff
    constructor
    · rintro ⟨hup, hreach⟩
      exact ⟨hup, (hiff hup).mpr hreach⟩
    · rintro ⟨hup, hsome⟩
      exact ⟨hup, (hiff hup).mp hsome⟩

/-! ## A list with two entries -/

/-- A credential that is not discoverable, made by the simulated device for the RP ID "a". -/
def simCredential : CredentialId :=
  let l := rpIdLookupOf simPrimitives simStart.keys (simSha256 (ascii "a"))
  let nonce := Bytes.zero 16
  let metadata := ctapXcryptBuf simPrimitives simStart.keys nonce (Bytes.zero 4)
  CredentialId.make 0 l nonce metadata 1 (ctapMakeAuthTag simPrimitives simStart.keys 0 l nonce metadata 1)

/-- A request whose exclude list has a credential of another device in front of one of this device. -/
def foreignFirstRequest : List UInt8 :=
  encMap [([1], encBytes (List.replicate 32 7)), ([2], encMap [(encString "id", encString "a")]),
    ([3], encMap [(encString "id", encBytes [1])]),
    ([4], [0x81] ++ encMap [(encString "alg", [0x26]), (encString "type", encString "public-key")]),
    ([5], [0x82] ++ encCredential {} ++ encCredential simCredential)]

theorem foreignFirst_run : ∃ MC h l w',
    makeCredentialChecks simPlatform foreignFirstRequest simStart = .ok (MC, h, l) w' ∧
      decide (w'.UserPresent ∧ (∃ r ∈ MC.excludeEntries, r.Excludes simPlatform w' h l (slotOf MC.pinProtocol)) ∧
        (MC.excludeChecks simPlatform w' h l).head? = some none) = true := by
  obtain ⟨⟨MC, h, l⟩, w', hrun, htest⟩ := run_of_test
    (p := fun (x : MakeCredential × Bytes 32 × Bytes 16) (w' : World) => decide (w'.UserPresent ∧
      (∃ r ∈ x.1.excludeEntries, r.Excludes simPlatform w' x.2.1 x.2.2 (slotOf x.1.pinProtocol)) ∧
        (x.1.excludeChecks simPlatform w' x.2.1 x.2.2).head? = some none))
    (m := makeCredentialChecks simPlatform foreignFirstRequest) (w := simStart) (by decide +kernel)
  exact ⟨MC, h, l, w', hrun, htest⟩

/-- The credential of this device is in the list, and the request is not stopped by it. -/
theorem excludeList_not_honoured : ∃ MC h l w',
    makeCredentialChecks simPlatform foreignFirstRequest simStart = .ok (MC, h, l) w' ∧
      ¬ ((∃ w'', ctapMakeCredential simPlatform foreignFirstRequest simStart
            = .error (.status .credentialExcluded) w'') ↔
        w'.UserPresent ∧ ∃ r ∈ MC.excludeEntries, r.Excludes simPlatform w' h l (slotOf MC.pinProtocol)) := by
  obtain ⟨MC, h, l, w', hchecks, htest⟩ := foreignFirst_run
  obtain ⟨hup, hsome, hnone⟩ := of_decide_eq_true htest
  refine ⟨MC, h, l, w', hchecks, fun hiff => ?_⟩
  have hreach := ((ctapMakeCredential_excluded hchecks).mp (hiff.mpr ⟨hup, hsome⟩)).2
  cases hlist : MC.excludeChecks simPlatform w' h l with
  | nil =>
    rw [hlist] at hreach
    exact not_reachesExcluded_nil hreach
  | cons c cs =>
    rw [hlist] at hreach hnone
    obtain rfl : c = none := Option.some.inj hnone
    exact not_reachesExcluded_none hreach

/-- The condition at that request. -/
theorem excludeList_honoured_iff_foreignFirst : ∃ MC h l w',
    makeCredentialChecks simPlatform foreignFirstRequest simStart = .ok (MC, h, l) w' ∧
      (((∃ w'', ctapMakeCredential simPlatform foreignFirstRequest simStart
            = .error (.status .credentialExcluded) w'') ↔
          w'.UserPresent ∧ ∃ r ∈ MC.excludeEntries, r.Excludes simPlatform w' h l (slotOf MC.pinProtocol)) ↔
        (w'.UserPresent →
          ((∃ r ∈ MC.excludeEntries, r.Excludes simPlatform w' h l (slotOf MC.pinProtocol)) ↔
            ReachesExcluded (MC.excludeChecks simPlatform w' h l)))) := by
  obtain ⟨MC, h, l, w', hchecks, -⟩ := foreignFirst_run
  exact ⟨MC, h, l, w', hchecks, excludeList_honoured_iff hchecks⟩

/-! ## Lists without short IDs -/

theorem length_fitChunks (room : Nat) (chunks : List (List UInt8)) :
    (fitChunks room chunks).1.length ≤ room := by
  induction chunks generalizing room with
  | nil => exact Nat.zero_le _
  | cons c cs ih =>
    unfold fitChunks
    by_cases hc : c.length ≤ room
    · rw [if_pos hc]
      have := ih (room - c.length)
      show (c ++ (fitChunks (room - c.length) cs).1).length ≤ room
      rw [List.length_append]
      omega
    · rw [if_neg hc]
      exact Nat.zero_le _

/-- A byte string that was copied: its length, and the bytes where it fills the buffer. -/
theorem copyByteString_ok {it next : CborValue} {n len : Nat} (h : (copyByteString it n).result = .ok (len, next)) :
    len ≤ n ∧ (len = n → (copyByteString it n).written.length = n) := by
  unfold copyByteString at h ⊢
  split_ifs at h ⊢
  · unfold copyString at h ⊢
    dsimp only at h ⊢
    cases hchunks : (stringChunks it).2 with
    | error e =>
      rw [hchunks] at h
      cases h
    | ok next' =>
      rw [hchunks] at h
      dsimp only at h ⊢
      split_ifs at h ⊢
      · obtain ⟨rfl, -⟩ := Prod.mk.inj (Except.ok.inj h)
        exact ⟨length_fitChunks _ _, fun heq => by omega⟩
      · obtain ⟨rfl, -⟩ := Prod.mk.inj (Except.ok.inj h)
        exact ⟨length_fitChunks _ _, fun heq => heq⟩
      · cases h

/-- An ID of full length leaves nothing of the buffer. -/
theorem readDescriptor_written {arr : CborValue} {r : DescriptorEntry} (h : readDescriptor arr = .ok r) :
    (r.length = 57 → r.written.length = 57) ∧ (57 < r.length → r.type = .unknown) := by
  unfold readDescriptor at h
  obtain ⟨_, -, h⟩ := except_bind_eq_ok.mp h
  obtain ⟨val, -, h⟩ := except_bind_eq_ok.mp h
  obtain ⟨_, -, h⟩ := except_bind_eq_ok.mp h
  obtain ⟨sz, -, h⟩ := except_bind_eq_ok.mp h
  split_ifs at h with hlong
  · obtain rfl := except_pure_eq_ok.mp h
    exact ⟨fun h57 => absurd h57 (by simpa using (Nat.ne_of_gt hlong)), fun _ => rfl⟩
  · obtain ⟨⟨length, next⟩, hcopy, h⟩ := except_bind_eq_ok.mp h
    obtain ⟨val', -, h⟩ := except_bind_eq_ok.mp h
    obtain ⟨type, -, h⟩ := except_bind_eq_ok.mp h
    obtain rfl := except_pure_eq_ok.mp h
    obtain ⟨hle, hfull⟩ := copyByteString_ok (cborCheck_eq_ok.mp hcopy)
    exact ⟨hfull, fun hlt => absurd hle (Nat.not_le.mpr hlt)⟩

section Long

variable {h : Bytes 32} {l : Bytes 16} {slot : Slot}

/-- An entry as the parser makes them, with an ID that is not shorter than those of this device. -/
structure DescriptorEntry.Long (r : DescriptorEntry) : Prop where
  length : 57 ≤ r.length
  written : r.length = 57 → r.written.length = 57
  type : 57 < r.length → r.type = .unknown

/-- IDs that are longer belong to other authenticators. -/
theorem DescriptorEntry.Long.check_of_lt {r : DescriptorEntry} (hr : r.Long) (hlt : 57 < r.length)
    (cred : CredentialDescriptor) : excludeCheck P w h l slot (r.into cred) = none := by
  unfold excludeCheck ctapCredentialBelongsToRp DescriptorEntry.into
  simp [hr.type hlt]

/-- What the buffer held before makes no difference to a long ID. -/
theorem DescriptorEntry.Long.check_eq {r : DescriptorEntry} (hr : r.Long) (cred : CredentialDescriptor) :
    excludeCheck P w h l slot (r.into cred) = excludeCheck P w h l slot (r.into {}) := by
  rcases hr.length.eq_or_lt with heq | hlt
  · have hid : (r.into cred).id = (r.into {}).id := by
      have hlen := hr.written heq.symm
      have hpatch : ∀ b : Bytes 57, (b.patch 0 r.written).toList = r.written := by
        intro b
        rw [Bytes.toList_patch_of_le _ _ _ (by omega), List.drop_of_length_le (by simp [hlen])]
        simp
      show (⟨cred.id.raw.patch 0 r.written⟩ : CredentialId) = ⟨(Bytes.zero 57).patch 0 r.written⟩
      exact congrArg _ (Bytes.ext_toList ((hpatch _).trans (hpatch _).symm))
    have htype : (r.into cred).type = (r.into {}).type := rfl
    unfold excludeCheck ctapCredentialBelongsToRp
    rw [hid, htype]
  · rw [hr.check_of_lt hlt, hr.check_of_lt hlt]

theorem checksFrom_of_long {rs : List DescriptorEntry} (hrs : ∀ r ∈ rs, r.Long) (cred : CredentialDescriptor) :
    checksFrom (excludeCheck P w h l slot) cred rs
      = rs.map fun r => excludeCheck P w h l slot (r.into {}) := by
  induction rs generalizing cred with
  | nil => rfl
  | cons r rs ih =>
    unfold checksFrom
    rw [(hrs r (by simp)).check_eq, ih (fun r' hr' => hrs r' (by simp [hr']))]
    rfl

theorem readDescriptors_long {n : Nat} {arr : CborValue} {rs : List DescriptorEntry}
    (hrs : readDescriptors n arr = .ok rs) {r : DescriptorEntry} (hr : r ∈ rs) (hlen : 57 ≤ r.length) : r.Long := by
  induction n generalizing arr rs with
  | zero =>
    obtain rfl := Except.ok.inj hrs
    exact absurd hr (by simp)
  | succ n ih =>
    unfold readDescriptors at hrs
    obtain ⟨r₁, hr₁, hrs⟩ := except_bind_eq_ok.mp hrs
    obtain ⟨arr', -, hrs⟩ := except_bind_eq_ok.mp hrs
    obtain ⟨rs', hrs', hrs⟩ := except_bind_eq_ok.mp hrs
    obtain rfl := except_pure_eq_ok.mp hrs
    rcases List.mem_cons.mp hr with rfl | hr
    · exact ⟨hlen, (readDescriptor_written hr₁).1, (readDescriptor_written hr₁).2⟩
    · exact ih hrs' hr

/-- The first entry that excludes the request, behind hidden ones. -/
theorem reachesExcluded_map {f : DescriptorEntry → Option Bool} {rs : List DescriptorEntry} :
    ReachesExcluded (rs.map f) ↔
      ∃ pre r post, rs = pre ++ r :: post ∧ (∀ p ∈ pre, f p = some false) ∧ f r = some true := by
  constructor
  · intro hreach
    induction rs with
    | nil => exact absurd hreach not_reachesExcluded_nil
    | cons r rs ih =>
      rw [List.map_cons] at hreach
      rcases hcheck : f r with _ | _ | _
      · rw [hcheck] at hreach
        exact absurd hreach not_reachesExcluded_none
      · rw [hcheck, reachesExcluded_hidden] at hreach
        obtain ⟨pre, r', post, rfl, hpre, hr'⟩ := ih hreach
        refine ⟨r :: pre, r', post, rfl, fun p hp => ?_, hr'⟩
        rcases List.mem_cons.mp hp with rfl | hp
        · exact hcheck
        · exact hpre p hp
      · exact ⟨[], r, rs, rfl, fun p hp => absurd hp (by simp), hcheck⟩
  · rintro ⟨pre, r, post, rfl, hpre, hr⟩
    refine ⟨pre.length, post.map f, ?_⟩
    rw [List.map_append, List.map_cons, hr]
    exact congrArg (· ++ _) (List.eq_replicate_of_mem (by simpa using hpre) |>.trans (by simp))

/-- With IDs of full length or more: every entry before the first one that excludes the request has to be
hidden. -/
theorem excludeList_honoured_iff_of_long {request : List UInt8} {MC : MakeCredential}
    (hchecks : makeCredentialChecks P request w = .ok (MC, h, l) w')
    (hlong : ∀ r ∈ MC.excludeEntries, 57 ≤ r.length) :
    ((∃ w'', ctapMakeCredential P request w = .error (.status .credentialExcluded) w'') ↔
        w'.UserPresent ∧ ∃ r ∈ MC.excludeEntries, r.Excludes P w' h l (slotOf MC.pinProtocol)) ↔
      (w'.UserPresent → (∃ r ∈ MC.excludeEntries, r.Excludes P w' h l (slotOf MC.pinProtocol)) →
        ∃ pre r post, MC.excludeEntries = pre ++ r :: post ∧ r.Excludes P w' h l (slotOf MC.pinProtocol) ∧
          ∀ p ∈ pre, excludeCheck P w' h l (slotOf MC.pinProtocol) (p.into {}) = some false) := by
  have hentries : ∀ r ∈ MC.excludeEntries, r.Long := by
    intro r hr
    unfold MakeCredential.excludeEntries at hr
    cases hlist : MC.excludeList with
    | none =>
      rw [hlist] at hr
      exact absurd hr (by simp)
    | some arr =>
      have hlen := hlong r (by simpa only [MakeCredential.excludeEntries] using hr)
      rw [hlist] at hr
      dsimp only at hr
      cases hread : readDescriptors MC.excludeListSize arr with
      | ok rs =>
        rw [hread] at hr
        exact readDescriptors_long hread hr hlen
      | error e =>
        rw [hread] at hr
        exact absurd hr List.not_mem_nil
  have hwhole : ∀ r ∈ MC.excludeEntries,
      (r.Excludes P w' h l (slotOf MC.pinProtocol) ↔
        excludeCheck P w' h l (slotOf MC.pinProtocol) (r.into {}) = some true) := by
    intro r hr
    refine ⟨And.right, fun hex => ⟨?_, hex⟩⟩
    rcases (hentries r hr).length.eq_or_lt with heq | hlt
    · exact .inl heq.symm
    · rw [(hentries r hr).check_of_lt hlt] at hex
      exact absurd hex (by simp)
  rw [excludeList_honoured_iff hchecks]
  unfold MakeCredential.excludeChecks
  rw [checksFrom_of_long hentries, reachesExcluded_map]
  constructor
  · intro hiff hup hsome
    obtain ⟨pre, r, post, heq, hpre, hr⟩ := (hiff hup).mp hsome
    exact ⟨pre, r, post, heq, (hwhole r (by simp [heq])).mpr hr, hpre⟩
  · intro himp hup
    constructor
    · intro hsome
      obtain ⟨pre, r, post, heq, hr, hpre⟩ := himp hup hsome
      exact ⟨pre, r, post, heq, hpre, hr.2⟩
    · rintro ⟨pre, r, post, heq, -, hr⟩
      exact ⟨r, by simp [heq], (hwhole r (by simp [heq])).mpr hr⟩

end Long

end TkeyFido2
