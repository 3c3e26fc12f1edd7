import TkeyFido2.Ctap.Filter
import TkeyFido2.Ctap.UserNames

/-!
# The request of an assertion

`parse_get_assertion_request` tests its status variable behind every member of the map.  The members 1 to 6
assign it, `pinUvAuthProtocol` and unknown members do not: where one of these comes first, the test reads a
variable that was never assigned.
-/

namespace TkeyFido2

open Cbor Prog

/-! ## Members and entries -/

/-- The integer keys and the values that a loop over a map meets. -/
def intItems (typeError : CtapError) (getKey : CborValue → CborM Int) :
    Nat → CborValue → Parse (List (Int × CborValue))
  | 0, _ => pure []
  | n + 1, it => do
    let (key, it) ← intKey typeError getKey it
    let next ← cborCheck (advance it)
    let items ← intItems typeError getKey n next
    pure ((key, it) :: items)

/-- The items that a loop over an array meets. -/
def arrayItems : Nat → CborValue → Parse (List CborValue)
  | 0, _ => pure []
  | n + 1, it => do
    let next ← cborCheck (advance it)
    let items ← arrayItems n next
    pure (it :: items)

/-- The entries of an allow list. -/
def allowListEntries (it : CborValue) : Parse (List CborValue) := do
  rejectIf (it.type ≠ .array) .invalidCbor
  let arr ← cborCheck (enterContainer it)
  let len ← cborCheck it.getArrayLength
  arrayItems len arr

theorem length_arrayItems {n : Nat} {it : CborValue} {l : List CborValue} (h : arrayItems n it = .ok l) :
    l.length = n := by
  induction n generalizing it l with
  | zero =>
    obtain rfl := except_pure_eq_ok.mp h
    rfl
  | succ n ih =>
    unfold arrayItems at h
    obtain ⟨next, -, h⟩ := except_bind_eq_ok.mp h
    obtain ⟨items, hitems, h⟩ := except_bind_eq_ok.mp h
    obtain rfl := except_pure_eq_ok.mp h
    rw [List.length_cons, ih hitems]

theorem intItems_advance {e : CtapError} {getKey : CborValue → CborM Int} {n : Nat} {it : CborValue}
    {items : List (Int × CborValue)} (h : intItems e getKey n it = .ok items) :
    ∀ m ∈ items, ∃ next, advance m.2 = .ok next := by
  induction n generalizing it items with
  | zero =>
    obtain rfl := except_pure_eq_ok.mp h
    exact fun m hm => absurd hm List.not_mem_nil
  | succ n ih =>
    unfold intItems at h
    obtain ⟨m, -, h⟩ := except_bind_eq_ok.mp h
    obtain ⟨next, hnext, h⟩ := except_bind_eq_ok.mp h
    obtain ⟨rest, hrest, h⟩ := except_bind_eq_ok.mp h
    obtain rfl := except_pure_eq_ok.mp h
    exact List.forall_mem_cons.mpr ⟨⟨next, cborCheck_eq_ok.mp hnext⟩, ih hrest⟩

/-- The loop of `parse_get_assertion_request` over its members. -/
def readMembers (ctapRet : CtapStatus) (GA : GetAssertion) : List (Int × CborValue) → CtapM GetAssertion
  | [] => pure GA
  | m :: items => do
    let GA ← getAssertionStep GA m.1 m.2
    let ctapRet := if assignsStatus m.1 then .ok else ctapRet
    checkStatus ctapRet
    readMembers ctapRet GA items

theorem ctapCheck_ok_bind {α β : Type} {x : Parse α} {a : α} {k : α → CtapM β} (h : x = .ok a) :
    (ctapCheck x >>= k) = k a := by
  rw [h]
  rfl

theorem getAssertionMembers_eq {n : Nat} {it : CborValue} {items : List (Int × CborValue)}
    (h : intItems .invalidCbor CborValue.getIntChecked n it = .ok items) (ctapRet : CtapStatus)
    (GA : GetAssertion) : getAssertionMembers n ctapRet GA it = readMembers ctapRet GA items := by
  induction n generalizing it items ctapRet GA with
  | zero =>
    obtain rfl := except_pure_eq_ok.mp h
    rfl
  | succ n ih =>
    unfold intItems at h
    obtain ⟨⟨key, x⟩, hkey, h⟩ := except_bind_eq_ok.mp h
    obtain ⟨next, hnext, h⟩ := except_bind_eq_ok.mp h
    obtain ⟨rest, hrest, h⟩ := except_bind_eq_ok.mp h
    obtain rfl := except_pure_eq_ok.mp h
    unfold getAssertionMembers readMembers
    rw [ctapCheck_ok_bind hkey]
    dsimp only
    simp only [ctapCheck_ok_bind hnext, ih hrest]

/-! ## Values -/

/-- The members of the request. -/
inductive GaField
  | rp
  | clientDataHash
  | allowList
  | extensions
  | options
  | pinUvAuthParam
  | pinProtocol
  deriving DecidableEq

namespace GaField

def key : GaField → Int
  | rp => 1
  | clientDataHash => 2
  | allowList => 3
  | extensions => 4
  | options => 5
  | pinUvAuthParam => 6
  | pinProtocol => 7

/-- A value of the type and in the range for a member.  For extensions and the entries of the allow list: one
that their parser accepts. -/
def Typed (it : CborValue) : GaField → Prop
  | rp => it.type = .textString ∧ it.text.length ≤ 253
  | clientDataHash => it.type = .byteString ∧ it.text.length = 32
  | allowList => ∃ entries, allowListEntries it = .ok entries ∧ entries.length ≤ 20 ∧
      ∀ e ∈ entries, ∃ cred, ctapParsePubkeyCredentialDescriptor e {} = .ok () cred
  | extensions => ∀ ext, ∃ ext', ctapExtensionsParseInput .ga ext it = .ok ext'
  | options => ∃ map len items, enterMap .invalidCbor it = .ok (map, len) ∧ textItems 8 len map = .ok items ∧
      ∀ m ∈ items, m.2.type = .boolean
  | pinUvAuthParam => it.type = .byteString ∧ it.getStringLength = .ok it.text.length ∧
      (it.text.length = 0 ∨ it.text.length = 16 ∨ it.text.length = 32)
  | pinProtocol => it.type = .integer ∧ ∃ n : Nat, n ≤ 255 ∧ it.getIntChecked = .ok n

/-- The part of the parsed request that a member fills. -/
def of (GA : GetAssertion) : GaField → GetAssertion
  | rp => { rp := GA.rp }
  | clientDataHash => { clientDataHash := GA.clientDataHash, clientDataHashPresent := GA.clientDataHashPresent }
  | allowList => { credLen := GA.credLen }
  | extensions => { extensions := GA.extensions }
  | options => { options := GA.options }
  | pinUvAuthParam => { pinUvAuthParam := GA.pinUvAuthParam }
  | pinProtocol => { pinProtocol := GA.pinProtocol }

/-- The part holds the value; `creds` is the array with the allow list. -/
def Filled (it : CborValue) (GA : GetAssertion) (creds : Creds) : GaField → Prop
  | rp => GA.rp.bytes = it.text
  | clientDataHash => GA.clientDataHash.toList = it.text ∧ GA.clientDataHashPresent = true
  | allowList => ∃ entries, allowListEntries it = .ok entries ∧ GA.credLen = entries.length ∧
      ∀ (i : Nat) (e : CborValue), entries[i]? = some e →
        ctapParsePubkeyCredentialDescriptor e {} = .ok () (creds.nth i)
  | extensions => ctapExtensionsParseInput .ga {} it = .ok GA.extensions
  | options => ctapParseOptions { up := .absent } it = .ok GA.options
  | pinUvAuthParam => GA.pinUvAuthParam.len.toNat = it.text.length ∧
      GA.pinUvAuthParam.empty = decide (it.text.length = 0) ∧
      GA.pinUvAuthParam.param.toList.take it.text.length = it.text
  | pinProtocol => it.getIntChecked = .ok GA.pinProtocol.toNat

theorem key_injective : Function.Injective key := by
  intro f f' h
  cases f <;> cases f' <;> first | rfl | exact absurd h (by decide)

end GaField

/-- A member of the request is typed; other integer keys take any value. -/
def MemberTyped (m : Int × CborValue) : Prop := ∀ f : GaField, m.1 = f.key → f.Typed m.2

theorem copyByteString_of_fits {it next : CborValue} {n : Nat} (ht : it.type = .byteString)
    (h : advance it = .ok next) (hle : it.text.length ≤ n) :
    copyByteString it n
      = ⟨if it.text.length < n then it.text ++ [0] else it.text, .ok (it.text.length, next)⟩ := by
  have hcopy : copyByteString it n = copyString it n := if_pos ht
  rw [hcopy, copyString_of_fits (advance_string (by rw [CborValue.isString, ht]; rfl) h) hle]

theorem copyTextString_of_fits {it next : CborValue} {n : Nat} (ht : it.type = .textString)
    (h : advance it = .ok next) (hle : it.text.length ≤ n) :
    copyTextString it n
      = ⟨if it.text.length < n then it.text ++ [0] else it.text, .ok (it.text.length, next)⟩ := by
  have hcopy : copyTextString it n = copyString it n := if_pos ht
  rw [hcopy, copyString_of_fits (advance_string (by rw [CborValue.isString, ht]; rfl) h) hle]

/-- A buffer whose first bytes were copied, with a zero behind them where it fits. -/
theorem take_patch_copied {n m : Nat} (b : Bytes m) {text : List UInt8} (hle : text.length ≤ n) (hn : n ≤ m) :
    (b.patch 0 (if text.length < n then text ++ [0] else text)).toList.take text.length = text := by
  by_cases hlt : text.length < n
  · rw [if_pos hlt, Bytes.toList_patch_of_le _ _ _ (by simp; omega), List.take_zero, List.nil_append,
      List.append_assoc, List.take_left]
  · rw [if_neg hlt, Bytes.toList_patch_of_le _ _ _ (by omega), List.take_zero, List.nil_append, List.take_left]

theorem foldlM_exists_ok {α σ : Type} {f : σ → α → Parse σ} {l : List α} (h : ∀ s, ∀ a ∈ l, ∃ s', f s a = .ok s')
    (s : σ) : ∃ s', l.foldlM f s = .ok s' := by
  induction l generalizing s with
  | nil => exact ⟨s, rfl⟩
  | cons a l ih =>
    obtain ⟨s₁, hs₁⟩ := h s a List.mem_cons_self
    obtain ⟨s', hs'⟩ := ih (fun s a ha => h s a (List.mem_cons_of_mem _ ha)) s₁
    exact ⟨s', by rw [List.foldlM_cons, hs₁]; exact hs'⟩

section Members

variable {GA : GetAssertion} {it next : CborValue}

theorem member_rp (GA : GetAssertion) (ht : GaField.rp.Typed it) (hnext : advance it = .ok next) :
    ∃ rp, getAssertionMember GA 1 it = .ok { GA with rp := rp } ∧ rp.bytes = it.text := by
  obtain ⟨htype, hle⟩ := ht
  refine ⟨⟨(GA.rp.id.patch 0 (if it.text.length < 253 then it.text ++ [0] else it.text)).patch 253 [0],
    it.text.length⟩, ?_, ?_⟩
  · unfold getAssertionMember ctapParseRpId
    rw [if_pos rfl, htype, copyTextString_of_fits htype hnext hle]
    rfl
  · show ((GA.rp.id.patch 0 _).patch 253 [0]).toList.take it.text.length = it.text
    rw [Bytes.take_patch_of_le _ _ _ _ hle (by simp), take_patch_copied _ hle (by omega)]

theorem member_clientDataHash (GA : GetAssertion) (ht : GaField.clientDataHash.Typed it)
    (hnext : advance it = .ok next) :
    ∃ h, getAssertionMember GA 2 it = .ok { GA with clientDataHash := h, clientDataHashPresent := true } ∧
      h.toList = it.text := by
  obtain ⟨htype, hlen⟩ := ht
  refine ⟨GA.clientDataHash.patch 0 it.text, ?_, ?_⟩
  · unfold getAssertionMember ctapParseFixedLengthByteString
    rw [if_neg (by decide), if_pos rfl, htype, copyByteString_of_fits htype hnext hlen.le,
      if_neg (by omega), hlen]
    rfl
  · rw [Bytes.toList_patch_of_le _ _ _ (by omega), List.take_zero, List.nil_append, List.drop_eq_nil_of_le
      (by simp [hlen]), List.append_nil]

theorem member_options (ht : GaField.options.Typed it) (o : Options) :
    ∃ o', ctapParseOptions o it = .ok o' := by
  obtain ⟨map, len, items, henter, hitems, hbool⟩ := ht
  unfold ctapParseOptions
  rw [henter]
  refine (foldlM_exists_ok (f := _) (l := items) (fun o m hm => ?_) o).imp fun o' ho' =>
    textMembers_eq_ok_iff.mpr ⟨items, hitems, ho'⟩
  rw [hbool m hm]
  have hget : m.2.getBoolean = .ok (decide (m.2.extra ≠ 0)) := by
    unfold CborValue.getBoolean
    rw [hbool m hm]
    rfl
  rw [hget]
  by_cases hrk : m.1 = ascii "rk"
  · rw [if_pos hrk]
    exact ⟨_, rfl⟩
  rw [if_neg hrk]
  by_cases huv : m.1 = ascii "uv"
  · rw [if_pos huv]
    exact ⟨_, rfl⟩
  rw [if_neg huv]
  by_cases hup : m.1 = ascii "up"
  · rw [if_pos hup]
    exact ⟨_, rfl⟩
  · rw [if_neg hup]
    exact ⟨_, rfl⟩

theorem member_pinUvAuthParam (GA : GetAssertion) (ht : GaField.pinUvAuthParam.Typed it)
    (hnext : advance it = .ok next) :
    ∃ p, getAssertionMember GA 6 it = .ok { GA with pinUvAuthParam := p } ∧ p.len.toNat = it.text.length ∧
      (GA.pinUvAuthParam.empty = false → p.empty = decide (it.text.length = 0)) ∧
      p.param.toList.take it.text.length = it.text := by
  obtain ⟨htype, hlen, hsize⟩ := ht
  have hle : it.text.length ≤ 32 := by omega
  unfold getAssertionMember ctapParsePinUvAuthParam
  rw [if_neg (by decide), if_neg (by decide), if_neg (by decide), if_neg (by decide), if_pos rfl, htype, hlen,
    copyByteString_of_fits htype hnext hle]
  by_cases hzero : it.text.length = 0
  · refine ⟨{ GA.pinUvAuthParam with empty := true, len := 0 }, ?_, ?_, ?_, ?_⟩
    · rw [hzero]
      rfl
    · exact hzero.symm
    · exact fun _ => (decide_eq_true hzero).symm
    · rw [hzero, List.take_zero, List.length_eq_zero_iff.mp hzero]
  · refine ⟨{ GA.pinUvAuthParam with
      param := GA.pinUvAuthParam.param.patch 0 (if it.text.length < 32 then it.text ++ [0] else it.text)
      len := UInt8.ofNat it.text.length }, ?_, ?_, ?_, ?_⟩
    · have hok : rejectIf (it.text.length ≠ 32 ∧ it.text.length ≠ 16) .invalidLength = pure () :=
        if_neg (by omega)
      show ((if it.text.length = 0 then pure { GA.pinUvAuthParam with empty := true, len := 0 } else
        rejectIf (it.text.length ≠ 32 ∧ it.text.length ≠ 16) .invalidLength >>= fun _ => _) >>= _) = _
      rw [if_neg hzero, hok]
      rfl
    · show (UInt8.ofNat it.text.length).toNat = _
      rw [UInt8.toNat_ofNat', Nat.mod_eq_of_lt (by omega)]
    · exact fun h => h.trans (decide_eq_false hzero).symm
    · exact take_patch_copied _ hle le_rfl

theorem member_pinProtocol (GA : GetAssertion) (ht : GaField.pinProtocol.Typed it) :
    ∃ v, getAssertionMember GA 7 it = .ok { GA with pinProtocol := v } ∧ it.getIntChecked = .ok v.toNat := by
  obtain ⟨htype, n, hn, hget⟩ := ht
  have hok : rejectIf ((n : Int) < 0 ∨ 255 < (n : Int)) .invalidCbor = pure () := if_neg (by omega)
  refine ⟨UInt8.ofNat n, ?_, ?_⟩
  · unfold getAssertionMember parseUint8
    rw [htype, hget]
    show ((rejectIf ((n : Int) < 0 ∨ 255 < (n : Int)) .invalidCbor >>= fun _ => _) >>= _) = _
    rw [hok]
    rfl
  · rw [hget, UInt8.toNat_ofNat', Nat.mod_eq_of_lt (by omega)]

end Members

/-! ## The allow list -/

theorem parseDescriptorAt_ok {i : Nat} {e : CborValue} {cred : CredentialDescriptor} {w : World}
    (h : ctapParsePubkeyCredentialDescriptor e {} = .ok () cred) :
    parseDescriptorAt i e w = .ok () { w with ga := { w.ga with creds := w.ga.creds.put i cred } } := by
  unfold parseDescriptorAt
  rw [get_bind, h]
  rfl

/-- The entries are written to the array one after the other. -/
theorem allowListItems_ok {n i : Nat} {arr : CborValue} {entries : List CborValue}
    (hread : arrayItems n arr = .ok entries) (hroom : i + n ≤ 20)
    (ht : ∀ e ∈ entries, ∃ cred, ctapParsePubkeyCredentialDescriptor e {} = .ok () cred) (w : World) :
    ∃ creds : Creds, allowListItems n i arr w = .ok (i + n) { w with ga := { w.ga with creds := creds } } ∧
      (∀ j < i, creds.nth j = w.ga.creds.nth j) ∧
      ∀ (j : Nat) (e : CborValue), entries[j]? = some e →
        ctapParsePubkeyCredentialDescriptor e {} = .ok () (creds.nth (i + j)) := by
  induction n generalizing i arr entries w with
  | zero =>
    obtain rfl := except_pure_eq_ok.mp hread
    exact ⟨w.ga.creds, rfl, fun _ _ => rfl, fun j e he => absurd he (by simp)⟩
  | succ n ih =>
    unfold arrayItems at hread
    obtain ⟨next, hnext, hread⟩ := except_bind_eq_ok.mp hread
    obtain ⟨rest, hrest, hread⟩ := except_bind_eq_ok.mp hread
    obtain rfl := except_pure_eq_ok.mp hread
    obtain ⟨⟨cred, hcred⟩, ht⟩ := List.forall_mem_cons.mp ht
    obtain ⟨creds, hrun, hkeep, hfill⟩ := ih hrest (i := i + 1) (by omega) ht
      { w with ga := { w.ga with creds := w.ga.creds.put i cred } }
    refine ⟨creds, ?_, fun j hj => ?_, fun j e he => ?_⟩
    · have hroom' : ¬ allowListMaxSize ≤ i := by
        show ¬ 20 ≤ i
        omega
      unfold allowListItems
      rw [failIf_bind_of_not hroom', bind_of_ok (parseDescriptorAt_ok hcred), ctapCheck_ok_bind hnext, hrun]
      congr 1
      omega
    · rw [hkeep j (by omega)]
      show (w.ga.creds.put i cred).nth j = _
      rw [nth_put (by omega), if_neg (by omega)]
    · cases j with
      | zero =>
        obtain rfl := Option.some.inj he
        rw [hcred, Nat.add_zero, hkeep i (by omega)]
        show _ = EStateM.Result.ok () ((w.ga.creds.put i cred).nth i)
        rw [nth_put (by omega), if_pos rfl]
      | succ j =>
        have h := hfill j e (by simpa using he)
        rwa [show i + 1 + j = i + (j + 1) by omega] at h

theorem parseAllowListCredentials_ok {it : CborValue} (ht : GaField.allowList.Typed it) (w : World) :
    ∃ (creds : Creds) (entries : List CborValue), allowListEntries it = .ok entries ∧
      parseAllowListCredentials it w = .ok entries.length { w with ga := { w.ga with creds := creds } } ∧
      ∀ (i : Nat) (e : CborValue), entries[i]? = some e →
        ctapParsePubkeyCredentialDescriptor e {} = .ok () (creds.nth i) := by
  obtain ⟨entries, hread, hroom, ht⟩ := ht
  have hentries := hread
  unfold allowListEntries at hread
  obtain ⟨_, htype, hread⟩ := except_bind_eq_ok.mp hread
  obtain ⟨arr, henter, hread⟩ := except_bind_eq_ok.mp hread
  obtain ⟨len, hlen, hread⟩ := except_bind_eq_ok.mp hread
  have hn := length_arrayItems hread
  obtain ⟨creds, hrun, -, hfill⟩ := allowListItems_ok hread (i := 0) (by omega) ht w
  refine ⟨creds, entries, hentries, ?_, fun i e he => by simpa using hfill i e he⟩
  unfold parseAllowListCredentials
  rw [failIf_bind_of_not (rejectIf_eq_ok.mp htype), ctapCheck_ok_bind henter, ctapCheck_ok_bind hlen, hrun, hn,
    Nat.zero_add]

/-! ## One member -/

/-- A typed member is read: it fills its own part of the request, and only the allow list is written to the
array. -/
theorem getAssertionStep_ok {m : Int × CborValue} (ht : MemberTyped m) (hnext : ∃ next, advance m.2 = .ok next)
    (GA : GetAssertion) (w : World) :
    ∃ (GA' : GetAssertion) (creds : Creds),
      getAssertionStep GA m.1 m.2 w = .ok GA' { w with ga := { w.ga with creds := creds } } ∧
      (m.1 ≠ GaField.allowList.key → creds = w.ga.creds) ∧
      ∀ f : GaField, (m.1 ≠ f.key → f.of GA' = f.of GA) ∧
        (m.1 = f.key → f.of GA = f.of {} → f.Filled m.2 GA' creds) := by
  obtain ⟨key, it⟩ := m
  obtain ⟨next, hnext⟩ := hnext
  have hpure (GA' : GetAssertion) (hne : key ≠ 3) (hmem : getAssertionMember GA key it = .ok GA')
      (h : ∀ f : GaField, (key ≠ f.key → f.of GA' = f.of GA) ∧
        (key = f.key → f.of GA = f.of {} → f.Filled it GA' w.ga.creds)) :
      ∃ (GA' : GetAssertion) (creds : Creds),
        getAssertionStep GA key it w = .ok GA' { w with ga := { w.ga with creds := creds } } ∧
        (key ≠ GaField.allowList.key → creds = w.ga.creds) ∧
        ∀ f : GaField, (key ≠ f.key → f.of GA' = f.of GA) ∧
          (key = f.key → f.of GA = f.of {} → f.Filled it GA' creds) := by
    refine ⟨GA', w.ga.creds, ?_, fun _ => rfl, h⟩
    unfold getAssertionStep
    rw [if_neg hne, hmem]
    rfl
  -- the part of one field changes, and it is filled
  have hfield (f : GaField) (hkey : key = f.key) {GA' : GetAssertion} {creds : Creds}
      (hkeep : ∀ f' : GaField, f' ≠ f → f'.of GA' = f'.of GA)
      (hfill : f.of GA = f.of {} → f.Filled it GA' creds) (f' : GaField) :
      (key ≠ f'.key → f'.of GA' = f'.of GA) ∧ (key = f'.key → f'.of GA = f'.of {} → f'.Filled it GA' creds) := by
    refine ⟨fun hne => hkeep f' fun h => hne (by rw [hkey, h]), fun heq => ?_⟩
    obtain rfl := GaField.key_injective (hkey.symm.trans heq)
    exact hfill
  by_cases hknown : ∃ f : GaField, key = f.key
  · obtain ⟨f, hkey⟩ := hknown
    have htf := ht f hkey
    cases f with
    | rp =>
      obtain ⟨rp, hmem, hbytes⟩ := member_rp GA htf hnext
      refine hpure { GA with rp := rp } (by rw [hkey]; decide) (by rw [hkey]; exact hmem)
        (hfield .rp hkey (fun f' hne => ?_) fun _ => hbytes)
      cases f' <;> first | rfl | exact absurd rfl hne
    | clientDataHash =>
      obtain ⟨h, hmem, hbytes⟩ := member_clientDataHash GA htf hnext
      refine hpure { GA with clientDataHash := h, clientDataHashPresent := true } (by rw [hkey]; decide)
        (by rw [hkey]; exact hmem) (hfield .clientDataHash hkey (fun f' hne => ?_) fun _ => ⟨hbytes, rfl⟩)
      cases f' <;> first | rfl | exact absurd rfl hne
    | allowList =>
      obtain ⟨creds, entries, hentries, hrun, hfill⟩ := parseAllowListCredentials_ok htf w
      refine ⟨{ GA with credLen := entries.length }, creds, ?_, fun hne => absurd hkey hne,
        hfield .allowList hkey (fun f' hne => ?_) fun _ => ⟨entries, hentries, rfl, hfill⟩⟩
      · unfold getAssertionStep
        rw [if_pos (show key = 3 from hkey), bind_of_ok hrun]
        rfl
      · cases f' <;> first | rfl | exact absurd rfl hne
    | extensions =>
      obtain ⟨ext, hext⟩ := htf GA.extensions
      refine hpure { GA with extensions := ext } (by rw [hkey]; decide) ?_
        (hfield .extensions hkey (fun f' hne => ?_) fun hempty => ?_)
      · rw [hkey]
        unfold getAssertionMember
        rw [if_neg (by decide), if_neg (by decide), if_pos (by decide), hext]
        rfl
      · cases f' <;> first | rfl | exact absurd rfl hne
      · rw [show GA.extensions = {} from congrArg GetAssertion.extensions hempty] at hext
        exact hext
    | options =>
      obtain ⟨o, ho⟩ := member_options htf GA.options
      refine hpure { GA with options := o } (by rw [hkey]; decide) ?_
        (hfield .options hkey (fun f' hne => ?_) fun hempty => ?_)
      · rw [hkey]
        unfold getAssertionMember
        rw [if_neg (by decide), if_neg (by decide), if_neg (by decide), if_pos (by decide), ho]
        rfl
      · cases f' <;> first | rfl | exact absurd rfl hne
      · rw [show GA.options = { up := .absent } from congrArg GetAssertion.options hempty] at ho
        exact ho
    | pinUvAuthParam =>
      obtain ⟨p, hmem, hlen, hzero, htake⟩ := member_pinUvAuthParam GA htf hnext
      refine hpure { GA with pinUvAuthParam := p } (by rw [hkey]; decide) (by rw [hkey]; exact hmem)
        (hfield .pinUvAuthParam hkey (fun f' hne => ?_) fun hempty => ⟨hlen, hzero ?_, htake⟩)
      · cases f' <;> first | rfl | exact absurd rfl hne
      · exact congrArg (fun G : GetAssertion => G.pinUvAuthParam.empty) hempty
    | pinProtocol =>
      obtain ⟨v, hmem, hv⟩ := member_pinProtocol GA htf
      refine hpure { GA with pinProtocol := v } (by rw [hkey]; decide) (by rw [hkey]; exact hmem)
        (hfield .pinProtocol hkey (fun f' hne => ?_) fun _ => hv)
      cases f' <;> first | rfl | exact absurd rfl hne
  · have hne (f : GaField) : key ≠ f.key := fun h => hknown ⟨f, h⟩
    refine hpure GA (hne .allowList) ?_ fun f => ⟨fun _ => rfl, fun h => absurd h (hne f)⟩
    unfold getAssertionMember
    rw [if_neg (show ¬ key = 1 from hne .rp), if_neg (show ¬ key = 2 from hne .clientDataHash),
      if_neg (show ¬ key = 4 from hne .extensions), if_neg (show ¬ key = 5 from hne .options),
      if_neg (show ¬ key = 6 from hne .pinUvAuthParam), if_neg (show ¬ key = 7 from hne .pinProtocol)]
    rfl

/-! ## All members -/

/-- The parts of a request after its members: a member that is not there leaves the initial value, and one that
is there once fills its part. -/
def Fields (items : List (Int × CborValue)) (GA₀ GA : GetAssertion) (creds : Creds) : Prop :=
  ∀ f : GaField, ((∀ m ∈ items, m.1 ≠ f.key) → f.of GA = f.of GA₀) ∧
    ∀ (before after : List (Int × CborValue)) (it : CborValue), items = before ++ (f.key, it) :: after →
      (∀ m ∈ before ++ after, m.1 ≠ f.key) → f.of GA₀ = f.of {} → f.Filled it GA creds

theorem GaField.filled_of (f : GaField) (it : CborValue) (GA : GetAssertion) (creds : Creds) :
    f.Filled it (f.of GA) creds = f.Filled it GA creds := by
  cases f <;> rfl

/-- What a part holds depends on the part alone. -/
theorem GaField.Filled.congr {f : GaField} {it : CborValue} {GA GA' : GetAssertion} {creds creds' : Creds}
    (h : f.Filled it GA creds) (hof : f.of GA' = f.of GA) (hcreds : f = .allowList → creds' = creds) :
    f.Filled it GA' creds' := by
  have hsame : f.Filled it GA creds' = f.Filled it GA creds := by
    by_cases hf : f = .allowList
    · rw [hcreds hf]
    · cases f <;> first | rfl | exact absurd rfl hf
  rw [← filled_of, hof, filled_of, hsame]
  exact h

/-- With a status that was assigned, typed members are read to the end. -/
theorem readMembers_ok {items : List (Int × CborValue)} (ht : ∀ m ∈ items, MemberTyped m)
    (hnext : ∀ m ∈ items, ∃ next, advance m.2 = .ok next) (GA : GetAssertion) (w : World) :
    ∃ (GA' : GetAssertion) (creds : Creds),
      readMembers .ok GA items w = .ok GA' { w with ga := { w.ga with creds := creds } } ∧
      ((∀ m ∈ items, m.1 ≠ GaField.allowList.key) → creds = w.ga.creds) ∧ Fields items GA GA' creds := by
  induction items generalizing GA w with
  | nil =>
    refine ⟨GA, w.ga.creds, rfl, fun _ => rfl, fun f => ⟨fun _ => rfl, fun before after it h => ?_⟩⟩
    exact absurd h (by simp)
  | cons m items ih =>
    obtain ⟨htm, ht⟩ := List.forall_mem_cons.mp ht
    obtain ⟨hm, hnext⟩ := List.forall_mem_cons.mp hnext
    obtain ⟨GA₁, creds₁, hstep, hcreds₁, hof⟩ := getAssertionStep_ok htm hm GA w
    obtain ⟨GA', creds, hrun, hcreds, hfields⟩ := ih ht hnext GA₁ { w with ga := { w.ga with creds := creds₁ } }
    refine ⟨GA', creds, ?_, fun hnone => ?_, fun f => ⟨fun hnone => ?_, fun before after it hsplit honce hempty => ?_⟩⟩
    · unfold readMembers
      rw [bind_of_ok hstep, ite_self]
      exact hrun
    · obtain ⟨hnm, hnone⟩ := List.forall_mem_cons.mp hnone
      rw [hcreds hnone]
      exact hcreds₁ hnm
    · obtain ⟨hnm, hnone⟩ := List.forall_mem_cons.mp hnone
      rw [(hfields f).1 hnone, (hof f).1 hnm]
    · cases before with
      | nil =>
        obtain ⟨rfl, rfl⟩ := List.cons.inj hsplit
        refine ((hof f).2 rfl hempty).congr ((hfields f).1 honce) fun hf => ?_
        rw [hcreds (hf ▸ honce)]
      | cons m' before =>
        obtain ⟨rfl, htail⟩ := List.cons.inj hsplit
        obtain ⟨hnm, honce⟩ := List.forall_mem_cons.mp honce
        exact (hfields f).2 before after it htail honce ((hof f).1 hnm |>.trans hempty)

/-- The stack holds `v` where the status variable lies. -/
def World.withStack (w : World) (v : UInt8) : World := { w with inputs := { w.inputs with stackStatus := v } }

theorem parseGetAssertionRequest_eq {request : List UInt8} {it map : CborValue} {len : Nat}
    {items : List (Int × CborValue)} (hinit : cborParserInit request = .ok it)
    (henter : enterMap .invalidCbor it = .ok (map, len))
    (hitems : intItems .invalidCbor CborValue.getIntChecked len map = .ok items) (w : World) :
    parseGetAssertionRequest request w = readMembers
      (if w.inputs.stackStatus = 0 then .ok else .error (.indeterminate w.inputs.stackStatus)) {} items w := by
  unfold parseGetAssertionRequest
  rw [ctapCheck_ok_bind (show cborCheck (cborParserInit request) = .ok it by rw [hinit]; rfl),
    ctapCheck_ok_bind henter]
  dsimp only
  rw [get_bind, getAssertionMembers_eq hitems]

/-- A request with typed members is read whatever the stack holds, and its members fill their parts, exactly
where the first member is one that assigns the status. -/
theorem parseGetAssertionRequest_reads_iff (request : List UInt8) (w : World) (it map : CborValue) (len : Nat)
    (items : List (Int × CborValue)) (hinit : cborParserInit request = .ok it)
    (henter : enterMap .invalidCbor it = .ok (map, len))
    (hitems : intItems .invalidCbor CborValue.getIntChecked len map = .ok items)
    (ht : ∀ m ∈ items, MemberTyped m) :
    (∀ stack : UInt8, ∃ (GA : GetAssertion) (w' : World),
      parseGetAssertionRequest request (w.withStack stack) = .ok GA w' ∧ Fields items {} GA w'.ga.creds) ↔
    ∀ m ∈ items.head?, 1 ≤ m.1 ∧ m.1 ≤ 6 := by
  have hnext := intItems_advance hitems
  cases items with
  | nil =>
    refine iff_of_true (fun stack => ?_) (fun m hm => absurd hm (by simp))
    obtain ⟨GA, creds, hrun, -, hfields⟩ := readMembers_ok ht hnext {} (w.withStack stack)
    rw [parseGetAssertionRequest_eq hinit henter hitems]
    exact ⟨GA, _, hrun, hfields⟩
  | cons m items =>
    simp only [List.head?_cons, Option.mem_def, Option.some.injEq, forall_eq']
    constructor
    · intro h
      obtain ⟨GA, w', hrun, -⟩ := h 1
      rw [parseGetAssertionRequest_eq hinit henter hitems] at hrun
      unfold readMembers at hrun
      obtain ⟨GA₁, w₁, -, hrun⟩ := bind_eq_ok.mp hrun
      by_contra hkey
      have hassign : assignsStatus m.1 = false := decide_eq_false hkey
      rw [hassign] at hrun
      obtain ⟨_, w₂, hcheck, -⟩ := bind_eq_ok.mp hrun
      exact absurd (checkStatus_eq_ok.mp hcheck).1 (by
        show ¬ CtapStatus.error (.indeterminate 1) = .ok
        simp)
    · intro hkey stack
      have hassign : assignsStatus m.1 = true := decide_eq_true hkey
      obtain ⟨GA, creds, hrun, -, hfields⟩ := readMembers_ok ht hnext {} (w.withStack stack)
      refine ⟨GA, { w.withStack stack with ga := { (w.withStack stack).ga with creds := creds } }, ?_, hfields⟩
      rw [parseGetAssertionRequest_eq hinit henter hitems, ← hrun]
      unfold readMembers
      rw [hassign]
      rfl

/-- The members of a request as they are met. -/
def requestItems (request : List UInt8) : Parse (CborValue × CborValue × Nat × List (Int × CborValue)) := do
  let it ← cborCheck (cborParserInit request)
  let (map, len) ← enterMap .invalidCbor it
  let items ← intItems .invalidCbor CborValue.getIntChecked len map
  pure (it, map, len, items)

/-- A request whose members are an RP ID, a hash, and a protocol number or unknown ones. -/
def plainItem (m : Int × CborValue) : Bool :=
  (m.1 = 1 && m.2.type = .textString && m.2.text.length ≤ 253) ||
    (m.1 = 2 && m.2.type = .byteString && m.2.text.length = 32) || 8 ≤ m.1

theorem memberTyped_of_plain {m : Int × CborValue} (h : plainItem m = true) : MemberTyped m := by
  simp only [plainItem, Bool.or_eq_true, Bool.and_eq_true, decide_eq_true_eq] at h
  intro f hf
  rcases h with (⟨⟨hkey, htype⟩, hlen⟩ | ⟨⟨hkey, htype⟩, hlen⟩) | hkey
  · cases f <;> first | exact ⟨htype, hlen⟩ | exact absurd (hkey.symm.trans hf) (by decide)
  · cases f <;> first | exact ⟨htype, hlen⟩ | exact absurd (hkey.symm.trans hf) (by decide)
  · rw [hf] at hkey
    cases f <;> exact absurd hkey (by decide)

theorem requestItems_plain (request : List UInt8) (key : Int) (h : (requestItems request).toOption.any (fun r =>
      r.2.2.2.all plainItem && r.2.2.2.head?.any fun m => m.1 = key) = true) :
    ∃ (it map : CborValue) (len : Nat) (m : Int × CborValue) (items : List (Int × CborValue)),
      cborParserInit request = .ok it ∧ enterMap .invalidCbor it = .ok (map, len) ∧
      intItems .invalidCbor CborValue.getIntChecked len map = .ok (m :: items) ∧
      (∀ x ∈ m :: items, MemberTyped x) ∧ m.1 = key := by
  cases hrun : requestItems request with
  | error e =>
    rw [hrun] at h
    exact absurd h (by simp [Except.toOption])
  | ok r =>
    obtain ⟨it, map, len, items⟩ := r
    rw [hrun] at h
    simp only [Except.toOption, Option.any_some, Bool.and_eq_true] at h
    obtain ⟨hall, hhead⟩ := h
    obtain ⟨m, hm, hkey⟩ := (Option.any_eq_true _ _).mp hhead
    obtain ⟨rest, rfl⟩ := List.head?_eq_some_iff.mp hm
    unfold requestItems at hrun
    obtain ⟨it', hit, hrun⟩ := except_bind_eq_ok.mp hrun
    obtain ⟨⟨map', len'⟩, henter, hrun⟩ := except_bind_eq_ok.mp hrun
    obtain ⟨items', hread, hrun⟩ := except_bind_eq_ok.mp hrun
    have heq := except_pure_eq_ok.mp hrun
    simp only [Prod.mk.injEq] at heq
    obtain ⟨rfl, rfl, rfl, rfl⟩ := heq
    exact ⟨it, map, len, m, rest, cborCheck_eq_ok.mp hit, henter, hread,
      fun x hx => memberTyped_of_plain (List.all_eq_true.mp hall x hx), of_decide_eq_true hkey⟩

/-- RP ID and hash. -/
def rpIdFirst : List UInt8 := [0xa2, 0x01, 0x61, 0x61, 0x02, 0x58, 0x20] ++ List.replicate 32 9

/-- An unknown member in front of them. -/
def unknownFirst : List UInt8 := [0xa3, 0x18, 0x63, 0xf5, 0x01, 0x61, 0x61, 0x02, 0x58, 0x20] ++ List.replicate 32 9

theorem parseGetAssertionRequest_reads_iff_rpIdFirst : ∃ (GA : GetAssertion) (w' : World),
    parseGetAssertionRequest rpIdFirst (simStart.withStack 1) = .ok GA w' := by
  obtain ⟨it, map, len, m, items, hit, henter, hread, htyped, hkey⟩ :=
    requestItems_plain rpIdFirst 1 (by decide +kernel)
  have hiff := parseGetAssertionRequest_reads_iff rpIdFirst simStart it map len (m :: items) hit henter hread htyped
  have hfirst : ∀ x ∈ (m :: items).head?, 1 ≤ x.1 ∧ x.1 ≤ 6 := by
    intro x hx
    obtain rfl := Option.some.inj hx
    rw [hkey]
    decide
  obtain ⟨GA, w', hrun, -⟩ := hiff.mpr hfirst 1
  exact ⟨GA, w', hrun⟩

/-- The unknown member comes first: what lies on the stack is returned as the status. -/
theorem unknownFirst_not_read : ∃ (it map : CborValue) (len : Nat) (items : List (Int × CborValue)),
    cborParserInit unknownFirst = .ok it ∧ enterMap .invalidCbor it = .ok (map, len) ∧
    intItems .invalidCbor CborValue.getIntChecked len map = .ok items ∧ (∀ m ∈ items, MemberTyped m) ∧
    (∃ w', parseGetAssertionRequest unknownFirst (simStart.withStack 1)
      = .error (.status (.indeterminate 1)) w') ∧
    ¬ ∀ stack : UInt8, ∃ (GA : GetAssertion) (w' : World),
      parseGetAssertionRequest unknownFirst (simStart.withStack stack) = .ok GA w' ∧ Fields items {} GA w'.ga.creds := by
  obtain ⟨it, map, len, m, items, hit, henter, hread, htyped, hkey⟩ :=
    requestItems_plain unknownFirst 99 (by decide +kernel)
  obtain ⟨GA, creds, hstep, -⟩ := getAssertionStep_ok (htyped m List.mem_cons_self)
    (intItems_advance hread m List.mem_cons_self) {} (simStart.withStack 1)
  have hrun : parseGetAssertionRequest unknownFirst (simStart.withStack 1) = .error (.status (.indeterminate 1))
      { simStart.withStack 1 with ga := { (simStart.withStack 1).ga with creds := creds } } := by
    rw [parseGetAssertionRequest_eq hit henter hread]
    unfold readMembers
    rw [bind_of_ok hstep, hkey]
    rfl
  refine ⟨it, map, len, m :: items, hit, henter, hread, htyped, ⟨_, hrun⟩, fun h => ?_⟩
  obtain ⟨GA', w', hok, -⟩ := h 1
  exact absurd (hrun.symm.trans hok) (by simp)

end TkeyFido2
