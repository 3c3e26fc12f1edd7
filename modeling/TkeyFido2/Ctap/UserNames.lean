import TkeyFido2.Cbor.Members
import TkeyFido2.Ctap.Parse

/-!
# The names of a user

`ctap_parse_user_entity` cuts a name to the size of its field: it lets the copy overflow and ends the field
with a zero.  A text that overflows is not copied at all.
-/

namespace TkeyFido2

open Cbor Prog

/-! ## The members of a map with text keys -/

/-- The keys and values that a loop over a map with text keys meets, where a long key is an error. -/
def textItems (keySize : Nat) : Nat → CborValue → Parse (List (List UInt8 × CborValue))
  | 0, _ => pure []
  | n + 1, it => do
    match ← textKey keySize it with
    | none => reject .limitExceeded
    | some key =>
      let it ← cborCheck (advance it)
      let next ← cborCheck (advance it)
      let items ← textItems keySize n next
      pure ((key, it) :: items)

/-- The loop handles one member after the other. -/
theorem textMembers_eq_ok_iff {σ : Type} {keySize : Nat} {member : σ → List UInt8 → CborValue → Parse σ} {n : Nat}
    {s s' : σ} {it : CborValue} :
    textMembers keySize false member n s it = .ok s' ↔
      ∃ items, textItems keySize n it = .ok items ∧ items.foldlM (fun s m => member s m.1 m.2) s = .ok s' := by
  induction n generalizing s it with
  | zero =>
    constructor
    · intro h
      exact ⟨[], rfl, h⟩
    · rintro ⟨items, hitems, h⟩
      obtain rfl := except_pure_eq_ok.mp hitems
      exact h
  | succ n ih =>
    unfold textMembers textItems
    constructor
    · intro h
      obtain ⟨key, hkey, h⟩ := except_bind_eq_ok.mp h
      cases key with
      | none =>
        obtain ⟨_, hreject, -⟩ := except_bind_eq_ok.mp h
        exact absurd rfl (rejectIf_eq_ok.mp hreject)
      | some key =>
        obtain ⟨x, hx, h⟩ := except_bind_eq_ok.mp h
        obtain ⟨s₁, hs₁, h⟩ := except_bind_eq_ok.mp h
        obtain ⟨next, hnext, h⟩ := except_bind_eq_ok.mp h
        obtain ⟨items, hitems, h⟩ := ih.mp h
        refine ⟨(key, x) :: items, except_bind_eq_ok.mpr ⟨some key, hkey, except_bind_eq_ok.mpr ⟨x, hx,
          except_bind_eq_ok.mpr ⟨next, hnext, except_bind_eq_ok.mpr ⟨items, hitems, rfl⟩⟩⟩⟩, ?_⟩
        rw [List.foldlM_cons, hs₁]
        exact h
    · rintro ⟨items, hitems, h⟩
      obtain ⟨key, hkey, hitems⟩ := except_bind_eq_ok.mp hitems
      cases key with
      | none => exact (reject_ne_ok.mp hitems).elim
      | some key =>
        obtain ⟨x, hx, hitems⟩ := except_bind_eq_ok.mp hitems
        obtain ⟨next, hnext, hitems⟩ := except_bind_eq_ok.mp hitems
        obtain ⟨rest, hrest, hitems⟩ := except_bind_eq_ok.mp hitems
        obtain rfl := except_pure_eq_ok.mp hitems
        rw [List.foldlM_cons] at h
        obtain ⟨s₁, hs₁, h⟩ := except_bind_eq_ok.mp h
        exact except_bind_eq_ok.mpr ⟨some key, hkey, except_bind_eq_ok.mpr ⟨x, hx,
          except_bind_eq_ok.mpr ⟨s₁, hs₁, except_bind_eq_ok.mpr ⟨next, hnext, ih.mpr ⟨rest, hrest, h⟩⟩⟩⟩⟩

/-- Every value can be skipped. -/
theorem textItems_advance {keySize n : Nat} {it : CborValue} {items : List (List UInt8 × CborValue)}
    (h : textItems keySize n it = .ok items) : ∀ m ∈ items, ∃ next, advance m.2 = .ok next := by
  induction n generalizing it items with
  | zero =>
    obtain rfl := except_pure_eq_ok.mp h
    exact fun m hm => absurd hm List.not_mem_nil
  | succ n ih =>
    unfold textItems at h
    obtain ⟨key, -, h⟩ := except_bind_eq_ok.mp h
    cases key with
    | none => exact (reject_ne_ok.mp h).elim
    | some key =>
      obtain ⟨x, -, h⟩ := except_bind_eq_ok.mp h
      obtain ⟨next, hnext, h⟩ := except_bind_eq_ok.mp h
      obtain ⟨rest, hrest, h⟩ := except_bind_eq_ok.mp h
      obtain rfl := except_pure_eq_ok.mp h
      exact List.forall_mem_cons.mpr ⟨⟨next, cborCheck_eq_ok.mp hnext⟩, ih hrest⟩

/-! ## Strings -/

/-- The bytes of a string. -/
def Cbor.CborValue.text (it : CborValue) : List UInt8 := (stringChunks it).1.flatten

theorem fitChunks_of_le {room : Nat} {cs : List (List UInt8)} (h : cs.flatten.length ≤ room) :
    fitChunks room cs = (cs.flatten, true) := by
  induction cs generalizing room with
  | nil => rfl
  | cons c cs ih =>
    rw [List.flatten_cons, List.length_append] at h
    unfold fitChunks
    rw [if_pos (by omega), ih (by omega), List.flatten_cons]

/-- Behind a chunk, the string is being read. -/
theorem getStringChunk_some {it it' : CborValue} {chunk : List UInt8}
    (h : getStringChunk it = .ok (some chunk, it')) :
    it'.iterating = true ∧ it'.unknownLength = it.unknownLength := by
  have hlast {v w : CborValue} : getStringChunk.lastChunk v ≠ .ok (some chunk, w) := by
    intro h
    unfold getStringChunk.lastChunk at h
    obtain ⟨next, -, h⟩ := except_bind_eq_ok.mp h
    exact absurd (Prod.mk.inj (except_pure_eq_ok.mp h)).1 (by simp)
  unfold getStringChunk at h
  by_cases hdone : it.iterating = true ∧ (!it.unknownLength) = true
  · rw [if_pos hdone] at h
    exact absurd h hlast
  rw [if_neg hdone] at h
  dsimp only at h
  generalize hv : (if (!it.iterating) = true ∧ it.unknownLength = true then
    { it with rest := it.rest.drop 1, iterating := true } else it) = v at h
  have hu : v.unknownLength = it.unknownLength := by
    rw [← hv]
    split
    · rfl
    · rfl
  split at h
  · exact absurd h fail_ne_ok
  · split_ifs at h
    · exact absurd h hlast
    · obtain ⟨⟨len, rest⟩, -, h⟩ := except_bind_eq_ok.mp h
      dsimp only at h
      split_ifs at h
      · exact absurd h fail_ne_ok
      · obtain ⟨-, rfl⟩ := Prod.mk.inj (Except.ok.inj h)
        exact ⟨rfl, hu⟩
    · exact absurd h fail_ne_ok

/-- A string of definite length has one chunk at most. -/
theorem stringChunks_definite {it : CborValue} (hdef : it.unknownLength = false) :
    (stringChunks it).1 = [] ∨ ∃ t, (stringChunks it).1 = [t] := by
  unfold stringChunks
  split_ifs
  · show (stringChunksAux (it.rest.length + 1 + 1) it).1 = [] ∨
      ∃ t, (stringChunksAux (it.rest.length + 1 + 1) it).1 = [t]
    unfold stringChunksAux
    split
    · exact .inl rfl
    · exact .inl rfl
    · rename_i chunk it₁ hchunk
      obtain ⟨hit, hu⟩ := getStringChunk_some hchunk
      refine .inr ⟨chunk, ?_⟩
      have hrest : (stringChunksAux (it.rest.length + 1) it₁).1 = [] := by
        unfold stringChunksAux getStringChunk
        rw [if_pos (by rw [hit, hu, hdef]; exact ⟨rfl, rfl⟩)]
        unfold getStringChunk.lastChunk
        cases preparseNextValue it₁ with
        | error e => rfl
        | ok next => rfl
      dsimp only
      rw [hrest]
  · exact .inl rfl

/-- A string of definite length is copied as a whole or not at all. -/
theorem fitChunks_definite {it : CborValue} (hdef : it.unknownLength = false) (room : Nat) :
    fitChunks room (stringChunks it).1 = if it.text.length ≤ room then (it.text, true) else ([], false) := by
  by_cases hle : it.text.length ≤ room
  · rw [if_pos hle, fitChunks_of_le hle]
    rfl
  · rw [if_neg hle]
    unfold CborValue.text at hle
    rcases stringChunks_definite hdef with h | ⟨t, h⟩
    · rw [h] at hle
      exact absurd (Nat.zero_le room) hle
    · rw [h] at hle ⊢
      unfold fitChunks
      rw [if_neg (by simpa using hle)]

/-- A text string that can be skipped. -/
theorem advance_string {it next : CborValue} (ht : it.isString = true) (h : advance it = .ok next) :
    (stringChunks it).2 = .ok next := by
  unfold advance at h
  obtain ⟨-, -, h⟩ := except_bind_eq_ok.mp h
  split_ifs at h
  · exact absurd h fail_ne_ok
  · have hfixed : isFixedType it.type = false ∧ it.isContainer = false := by
      unfold CborValue.isString at ht
      rcases of_decide_eq_true ht with h | h <;> rw [CborValue.isContainer, h] <;> decide
    unfold cborParserMaxRecursions advanceRecursive at h
    rw [hfixed.1, hfixed.2] at h
    exact h

/-- What a member that is cut to its buffer leaves there. -/
theorem parseTruncatedText_eq {it next : CborValue} (ht : it.type = .textString) (h : advance it = .ok next)
    (hdef : it.unknownLength = false) (limit : Nat) :
    parseTruncatedText it limit = .ok (if it.text.length < limit then it.text ++ [0]
      else if it.text.length = limit then it.text else []) := by
  have hchunks := advance_string (by rw [CborValue.isString, ht]; rfl) h
  have hcopy : copyTextString it limit = copyString it limit := if_pos ht
  unfold parseTruncatedText
  rw [ht, hcopy]
  unfold copyString
  simp only [hchunks, fitChunks_definite hdef]
  by_cases hle : it.text.length ≤ limit
  · rw [if_pos hle]
    by_cases hlt : it.text.length < limit
    · simp only [if_pos hlt, if_true]
      rfl
    · simp only [if_neg hlt, if_pos (show it.text.length = limit by omega), if_true]
      rfl
  · rw [if_neg hle, if_neg (show ¬ it.text.length < limit by omega),
      if_neg (show ¬ it.text.length = limit by omega)]
    rfl

/-! ## Fields -/

/-- The field holds the text, cut to the room in front of its last byte, and a zero behind it. -/
def HoldsText {limit : Nat} (field : Bytes (limit + 1)) (text : List UInt8) : Prop :=
  field.toList.take (min text.length limit) = text.take limit ∧ field.byte (min text.length limit) = 0

instance {limit : Nat} (field : Bytes (limit + 1)) (text : List UInt8) : Decidable (HoldsText field text) :=
  inferInstanceAs (Decidable (_ ∧ _))

/-- A text copied to a field, and a zero at its end. -/
def storeText {limit : Nat} (field : Bytes (limit + 1)) (text : List UInt8) : Bytes (limit + 1) :=
  (field.patch 0 (if text.length < limit + 1 then text ++ [0]
    else if text.length = limit + 1 then text else [])).patch limit [0]

theorem toList_storeText {limit : Nat} (field : Bytes (limit + 1)) (text : List UInt8) :
    (storeText field text).toList = (if text.length < limit + 1 then text ++ [0] ++ field.toList.drop (text.length + 1)
      else if text.length = limit + 1 then text else field.toList).take limit ++ [0] := by
  have hlen := field.toList_length
  have hlast (b : Bytes (limit + 1)) : (b.patch limit [0]).toList = b.toList.take limit ++ [0] := by
    rw [Bytes.toList_patch_of_le _ _ _ (by simp), List.drop_eq_nil_of_le (by simp), List.append_nil]
  unfold storeText
  rw [hlast]
  congr 2
  by_cases hlt : text.length < limit + 1
  · rw [if_pos hlt, if_pos hlt, Bytes.toList_patch_of_le _ _ _ (by simp; omega), List.take_zero,
      List.nil_append, Nat.zero_add, List.length_append]
    rfl
  rw [if_neg hlt, if_neg hlt]
  by_cases heq : text.length = limit + 1
  · rw [if_pos heq, if_pos heq, Bytes.toList_patch_of_le _ _ _ (by omega), List.take_zero, List.nil_append,
      List.drop_eq_nil_of_le (by omega), List.append_nil]
  · rw [if_neg heq, if_neg heq, Bytes.patch_nil]

/-- The last byte is zero. -/
theorem byte_append_zero {limit : Nat} {b : Bytes (limit + 1)} {l : List UInt8} (h : b.toList = l ++ [0])
    (hl : l.length = limit) : b.byte limit = 0 := by
  unfold Bytes.byte
  rw [h, List.getD_eq_getElem?_getD, ← hl, List.getElem?_concat_length]
  rfl

/-- The text is held where it fits, with its zero or without, or was there before. -/
theorem holdsText_storeText_iff {limit : Nat} (field : Bytes (limit + 1)) (text : List UInt8) :
    HoldsText (storeText field text) text ↔
      text.length ≤ limit + 1 ∨ field.toList.take limit = text.take limit := by
  have hlen := field.toList_length
  have hlist := toList_storeText field text
  unfold HoldsText
  by_cases hlt : text.length < limit + 1
  · rw [if_pos hlt] at hlist
    rw [Nat.min_eq_left (by omega), hlist]
    refine iff_of_true ⟨?_, ?_⟩ (.inl hlt.le)
    · rw [List.take_append_of_le_length (by simp; omega), List.take_take, Nat.min_eq_left (by omega),
        List.append_assoc, List.take_left, List.take_of_length_le (by omega)]
    · by_cases heq : text.length = limit
      · rw [heq]
        exact byte_append_zero hlist (by simp; omega)
      · unfold Bytes.byte
        rw [hlist, List.getD_eq_getElem?_getD, List.getElem?_append_left (by simp; omega),
          List.getElem?_take_of_lt (by omega), List.getElem?_append_left (by simp), List.getElem?_concat_length]
        rfl
  rw [if_neg hlt] at hlist
  rw [Nat.min_eq_right (by omega)]
  have hroom : limit ≤ (if text.length = limit + 1 then text else field.toList).length := by
    split
    · omega
    · omega
  have hzero : (storeText field text).byte limit = 0 :=
    byte_append_zero hlist (by rw [List.length_take]; omega)
  have htake : (storeText field text).toList.take limit
      = (if text.length = limit + 1 then text else field.toList).take limit := by
    rw [hlist, List.take_append_of_le_length (by rw [List.length_take]; omega), List.take_take, Nat.min_self]
  rw [htake]
  by_cases heq : text.length = limit + 1
  · rw [if_pos heq]
    exact iff_of_true ⟨rfl, hzero⟩ (.inl heq.le)
  · rw [if_neg heq]
    exact ⟨fun h => .inr h.1, fun h => ⟨h.resolve_left (by omega), hzero⟩⟩

/-! ## The members of a user entity -/

/-- A member of `ctap_parse_user_entity`. -/
def userMember (user : UserEntity) (key : List UInt8) (it : CborValue) : Parse UserEntity :=
  if key = ascii "id" then do
    rejectIf (it.type ≠ .byteString) .invalidCbor
    let r := copyByteString it 64
    match r.result with
    | .error (.err .outOfMemory) => reject .limitExceeded
    | .error e => cborCheck (.error e)
    | .ok (sz, _) => pure ((user.setId r.written).setIdSize (UInt8.ofNat sz))
  else if key = ascii "name" then do
    let name ← parseTruncatedText it 65
    pure ⟨(user.setName name).raw.patch 129 [0]⟩
  else if key = ascii "displayName" then do
    let name ← parseTruncatedText it 32
    pure ⟨(user.setDisplayName name).raw.patch 161 [0]⟩
  else if key = ascii "icon" then do
    rejectIf (it.type ≠ .textString) .invalidCbor
    pure user
  else pure user

theorem ctapParseUserEntity_eq (user : UserEntity) (val : CborValue) :
    ctapParseUserEntity user val = (do
      let (map, len) ← enterMap .invalidCbor val
      textMembers 24 false userMember len user map) := rfl

/-- What a member of a user entity holds: the types that the code asks for, and an ID that fits. -/
structure UserMemberTyped (m : List UInt8 × CborValue) : Prop where
  id : m.1 = ascii "id" → m.2.type = .byteString ∧ m.2.text.length ≤ 64
  name : m.1 = ascii "name" → m.2.type = .textString ∧ m.2.unknownLength = false
  displayName : m.1 = ascii "displayName" → m.2.type = .textString ∧ m.2.unknownLength = false
  icon : m.1 = ascii "icon" → m.2.type = .textString

/-- The text fields with the keys that fill them. -/
inductive NameField
  | name
  | displayName
  deriving DecidableEq

namespace NameField

def key : NameField → List UInt8
  | name => ascii "name"
  | displayName => ascii "displayName"

/-- The place for text in front of the last byte. -/
def limit : NameField → Nat
  | name => 64
  | displayName => 31

def get (user : UserEntity) : (f : NameField) → Bytes (f.limit + 1)
  | name => user.name
  | displayName => user.displayName

end NameField

theorem copyString_of_fits {it next : CborValue} {n : Nat} (h : (stringChunks it).2 = .ok next)
    (hle : it.text.length ≤ n) :
    copyString it n = ⟨if it.text.length < n then it.text ++ [0] else it.text, .ok (it.text.length, next)⟩ := by
  have hfit : fitChunks n (stringChunks it).1 = (it.text, true) := fitChunks_of_le hle
  unfold copyString
  simp only [h, hfit, if_true]

/-- The ID is stored in front of both names. -/
theorem get_setId (f : NameField) (user : UserEntity) {l : List UInt8} (hl : l.length ≤ 64) (n : UInt8) :
    f.get ((user.setId l).setIdSize n) = f.get user := by
  cases f with
  | name =>
    show ((user.raw.patch 0 l).patch 64 [n]).slice 65 65 = user.raw.slice 65 65
    rw [Bytes.slice_patch_of_ge _ _ (by simp) (by omega), Bytes.slice_patch_of_ge _ _ (by omega) (by omega)]
  | displayName =>
    show ((user.raw.patch 0 l).patch 64 [n]).slice 130 32 = user.raw.slice 130 32
    rw [Bytes.slice_patch_of_ge _ _ (by simp) (by omega), Bytes.slice_patch_of_ge _ _ (by omega) (by omega)]

/-- A name takes its own field only. -/
theorem get_setName (f : NameField) (user : UserEntity) {l : List UInt8} (hl : l.length ≤ 65) :
    f.get ⟨(user.setName l).raw.patch 129 [0]⟩
      = if f = .name then (f.get user).patch 0 l |>.patch f.limit [0] else f.get user := by
  cases f with
  | name =>
    show ((user.raw.patch (65 + 0) l).patch (65 + 64) [0]).slice 65 65
      = ((user.raw.slice 65 65).patch 0 l).patch 64 [0]
    rw [Bytes.slice_patch_inside _ _ _ (by simp) (by omega), Bytes.slice_patch_inside _ _ _ (by omega) (by omega)]
  | displayName =>
    show ((user.raw.patch 65 l).patch 129 [0]).slice 130 32 = user.raw.slice 130 32
    rw [Bytes.slice_patch_of_ge _ _ (by simp) (by omega), Bytes.slice_patch_of_ge _ _ (by omega) (by omega)]

theorem get_setDisplayName (f : NameField) (user : UserEntity) {l : List UInt8} (hl : l.length ≤ 32) :
    f.get ⟨(user.setDisplayName l).raw.patch 161 [0]⟩
      = if f = .displayName then (f.get user).patch 0 l |>.patch f.limit [0] else f.get user := by
  cases f with
  | name =>
    show ((user.raw.patch 130 l).patch 161 [0]).slice 65 65 = user.raw.slice 65 65
    rw [Bytes.slice_patch_of_le _ _ (by omega) (by simp), Bytes.slice_patch_of_le _ _ (by omega) (by omega)]
  | displayName =>
    show ((user.raw.patch (130 + 0) l).patch (130 + 31) [0]).slice 130 32
      = ((user.raw.slice 130 32).patch 0 l).patch 31 [0]
    rw [Bytes.slice_patch_inside _ _ _ (by simp) (by omega), Bytes.slice_patch_inside _ _ _ (by omega) (by omega)]

theorem length_written (text : List UInt8) (n : Nat) :
    (if text.length < n then text ++ [0] else if text.length = n then text else []).length ≤ n := by
  split_ifs
  · rw [List.length_append]
    exact Nat.succ_le_of_lt ‹_›
  · exact le_of_eq ‹_›
  · exact Nat.zero_le n

/-- One member is read: the field of its key takes the text, every other field stays. -/
theorem userMember_get (user : UserEntity) {key : List UInt8} {it next : CborValue}
    (ht : UserMemberTyped (key, it)) (hnext : advance it = .ok next) :
    ∃ user', userMember user key it = .ok user' ∧
      ∀ f : NameField, f.get user' = if key = f.key then storeText (f.get user) it.text else f.get user := by
  unfold userMember
  by_cases hid : key = ascii "id"
  · obtain ⟨htype, hle⟩ := ht.id hid
    have hcopy : copyByteString it 64 = copyString it 64 := if_pos htype
    have hkey (f : NameField) : key ≠ f.key := by
      rw [hid]
      cases f <;> decide
    rw [if_pos hid, htype, hcopy,
      copyString_of_fits (advance_string (by rw [CborValue.isString, htype]; rfl) hnext) hle]
    refine ⟨_, rfl, fun f => ?_⟩
    rw [if_neg (hkey f)]
    refine get_setId f user ?_ _
    split
    · rw [List.length_append]
      exact Nat.succ_le_of_lt ‹_›
    · exact hle
  rw [if_neg hid]
  by_cases hname : key = ascii "name"
  · obtain ⟨htype, hdef⟩ := ht.name hname
    rw [if_pos hname, parseTruncatedText_eq htype hnext hdef]
    refine ⟨_, rfl, fun f => ?_⟩
    rw [get_setName f user (length_written it.text 65), hname]
    cases f with
    | name => rfl
    | displayName => rfl
  rw [if_neg hname]
  by_cases hdisplay : key = ascii "displayName"
  · obtain ⟨htype, hdef⟩ := ht.displayName hdisplay
    rw [if_pos hdisplay, parseTruncatedText_eq htype hnext hdef]
    refine ⟨_, rfl, fun f => ?_⟩
    rw [get_setDisplayName f user (length_written it.text 32), hdisplay]
    cases f with
    | name => rfl
    | displayName => rfl
  have hkey (f : NameField) : key ≠ f.key := by
    cases f with
    | name => exact hname
    | displayName => exact hdisplay
  rw [if_neg hdisplay]
  by_cases hicon : key = ascii "icon"
  · rw [if_pos hicon, ht.icon hicon]
    exact ⟨user, rfl, fun f => (if_neg (hkey f)).symm⟩
  · rw [if_neg hicon]
    exact ⟨user, rfl, fun f => (if_neg (hkey f)).symm⟩

/-- The members are read one after the other; a field keeps what the last member with its key left. -/
theorem userMembers_get {items : List (List UInt8 × CborValue)} (ht : ∀ m ∈ items, UserMemberTyped m)
    (hnext : ∀ m ∈ items, ∃ next, advance m.2 = .ok next) (user : UserEntity) :
    ∃ user', items.foldlM (fun s m => userMember s m.1 m.2) user = .ok user' ∧
      ∀ f : NameField, (∀ m ∈ items, m.1 ≠ f.key) → f.get user' = f.get user := by
  induction items generalizing user with
  | nil => exact ⟨user, rfl, fun _ _ => rfl⟩
  | cons m items ih =>
    obtain ⟨htm, ht⟩ := List.forall_mem_cons.mp ht
    obtain ⟨⟨next, hm⟩, hnext⟩ := List.forall_mem_cons.mp hnext
    obtain ⟨user₁, hrun, hget⟩ := userMember_get user htm hm
    obtain ⟨user', hrest, hkeep⟩ := ih ht hnext user₁
    refine ⟨user', ?_, fun f hf => ?_⟩
    · rw [List.foldlM_cons, hrun]
      exact hrest
    · obtain ⟨hfm, hf⟩ := List.forall_mem_cons.mp hf
      rw [hkeep f hf, hget f, if_neg hfm]

/-- A user entity is accepted whatever the length of its names.  The last member for a field leaves the text
there, cut to the field, exactly where the text is at most one byte too long for its zero, or where the
members before it left that text. -/
theorem ctapParseUserEntity_names_iff (user : UserEntity) (val map : CborValue) (len : Nat)
    (items : List (List UInt8 × CborValue)) (henter : enterMap .invalidCbor val = .ok (map, len))
    (hitems : textItems 24 len map = .ok items) (ht : ∀ m ∈ items, UserMemberTyped m) :
    ∃ user', ctapParseUserEntity user val = .ok user' ∧
      ∀ (f : NameField) (before after : List (List UInt8 × CborValue)) (it : CborValue),
        items = before ++ (f.key, it) :: after → (∀ m ∈ after, m.1 ≠ f.key) →
        ∃ user₁, before.foldlM (fun s m => userMember s m.1 m.2) user = .ok user₁ ∧
          (HoldsText (f.get user') it.text ↔
            it.text.length ≤ f.limit + 1 ∨ (f.get user₁).toList.take f.limit = it.text.take f.limit) := by
  have hnext := textItems_advance hitems
  obtain ⟨user', hrun, -⟩ := userMembers_get ht hnext user
  refine ⟨user', ?_, fun f before after it hsplit hafter => ?_⟩
  · rw [ctapParseUserEntity_eq, henter]
    exact textMembers_eq_ok_iff.mpr ⟨items, hitems, hrun⟩
  · subst hsplit
    rw [List.forall_mem_append, List.forall_mem_cons] at ht hnext
    obtain ⟨hbefore, hit, hrest⟩ := ht
    obtain ⟨hnbefore, ⟨next, hnit⟩, hnrest⟩ := hnext
    obtain ⟨user₁, hrun₁, -⟩ := userMembers_get hbefore hnbefore user
    obtain ⟨user₂, hrun₂, hget₂⟩ := userMember_get user₁ hit hnit
    obtain ⟨user₃, hrun₃, hget₃⟩ := userMembers_get hrest hnrest user₂
    refine ⟨user₁, hrun₁, ?_⟩
    have huser : user' = user₃ := by
      rw [List.foldlM_append, hrun₁] at hrun
      change (((f.key, it) :: after).foldlM (fun s m => userMember s m.1 m.2) user₁) = .ok user' at hrun
      rw [List.foldlM_cons, hrun₂] at hrun
      exact Except.ok.inj (hrun.symm.trans hrun₃)
    rw [huser, hget₃ f hafter, hget₂ f, if_pos rfl]
    exact holdsText_storeText_iff _ _

/-- A user entity with a name only. -/
def nameOnly (name : List UInt8) : List UInt8 :=
  [0xa1, 0x64] ++ ascii "name" ++ Encoder.numberBytes name.length 3 ++ name

/-- The members of a user entity. -/
def userItems (entity : List UInt8) : Parse (CborValue × CborValue × Nat × List (List UInt8 × CborValue)) := do
  let val ← cborCheck (cborParserInit entity)
  let (map, len) ← enterMap .invalidCbor val
  let items ← textItems 24 len map
  pure (val, map, len, items)

/-- One member, a name of definite length. -/
theorem userItems_nameOnly (name : List UInt8) {p : CborValue → Bool}
    (h : (userItems (nameOnly name)).toOption.any (fun r => r.2.2.2.length = 1 && p r.1 &&
      r.2.2.2.all fun m => m.1 = ascii "name" && m.2.type = .textString && m.2.unknownLength = false &&
        m.2.text = name) = true) :
    ∃ (val map it : CborValue) (len : Nat), cborParserInit (nameOnly name) = .ok val ∧
      enterMap .invalidCbor val = .ok (map, len) ∧ textItems 24 len map = .ok [(ascii "name", it)] ∧
      UserMemberTyped (ascii "name", it) ∧ it.text = name ∧ p val = true := by
  cases hrun : userItems (nameOnly name) with
  | error e =>
    rw [hrun] at h
    exact absurd h (by simp [Except.toOption])
  | ok r =>
    obtain ⟨val, map, len, items⟩ := r
    rw [hrun] at h
    simp only [Except.toOption, Option.any_some, Bool.and_eq_true, decide_eq_true_eq] at h
    obtain ⟨⟨hone, hp⟩, hall⟩ := h
    obtain ⟨⟨key, it⟩, rfl⟩ := List.length_eq_one_iff.mp hone
    simp only [List.all_cons, List.all_nil, Bool.and_true, Bool.and_eq_true, decide_eq_true_eq] at hall
    obtain ⟨⟨⟨rfl, htype⟩, hdef⟩, htext⟩ := hall
    unfold userItems at hrun
    obtain ⟨val', hval, hrun⟩ := except_bind_eq_ok.mp hrun
    obtain ⟨⟨map', len'⟩, henter, hrun⟩ := except_bind_eq_ok.mp hrun
    obtain ⟨items', hread, hrun⟩ := except_bind_eq_ok.mp hrun
    have heq := except_pure_eq_ok.mp hrun
    simp only [Prod.mk.injEq] at heq
    obtain ⟨rfl, rfl, rfl, rfl⟩ := heq
    have hother (key : List UInt8) (hne : ascii "name" ≠ key) {q : Prop} (h : ascii "name" = key) : q :=
      absurd h hne
    exact ⟨val, map, it, len, cborCheck_eq_ok.mp hval, henter, hread,
      ⟨hother _ (by decide), fun _ => ⟨htype, hdef⟩, hother _ (by decide), hother _ (by decide)⟩, htext, hp⟩

/-- A name that fits. -/
theorem ctapParseUserEntity_names_iff_short : ∃ (val : CborValue) (user' : UserEntity),
    cborParserInit (nameOnly (ascii "Al")) = .ok val ∧ ctapParseUserEntity {} val = .ok user' ∧
      HoldsText user'.name (ascii "Al") := by
  obtain ⟨val, map, it, len, hval, henter, hread, htyped, htext, -⟩ :=
    userItems_nameOnly (ascii "Al") (p := fun _ => true) (by decide)
  obtain ⟨user', hparse, hnames⟩ := ctapParseUserEntity_names_iff {} val map len _ henter hread
    (List.forall_mem_cons.mpr ⟨htyped, fun m hm => absurd hm List.not_mem_nil⟩)
  obtain ⟨user₁, -, hiff⟩ := hnames .name [] [] it rfl fun m hm => absurd hm List.not_mem_nil
  rw [htext] at hiff
  exact ⟨val, user', hval, hparse, hiff.mpr (.inl (by decide))⟩

/-- A name of 66 bytes leaves the field empty. -/
theorem longName_not_stored : ∃ (val map it : CborValue) (len : Nat) (user' : UserEntity),
    cborParserInit (nameOnly (List.replicate 66 0x61)) = .ok val ∧ enterMap .invalidCbor val = .ok (map, len) ∧
      textItems 24 len map = .ok [(ascii "name", it)] ∧ UserMemberTyped (ascii "name", it) ∧
      it.text = List.replicate 66 0x61 ∧ ctapParseUserEntity {} val = .ok user' ∧
      user'.name = Bytes.zero 65 ∧ ¬ HoldsText user'.name it.text := by
  obtain ⟨val, map, it, len, hval, henter, hread, htyped, htext, hp⟩ :=
    userItems_nameOnly (List.replicate 66 0x61) (p := fun val =>
      (ctapParseUserEntity {} val).toOption.any fun user' => user'.name = Bytes.zero 65) (by decide +kernel)
  obtain ⟨user', huser, hname⟩ := (Option.any_eq_true _ _).mp hp
  have hname := of_decide_eq_true hname
  refine ⟨val, map, it, len, user', hval, henter, hread, htyped, htext, ?_, hname, ?_⟩
  · cases hparse : ctapParseUserEntity {} val with
    | ok u =>
      rw [hparse] at huser
      exact congrArg Except.ok (Option.some.inj huser)
    | error e =>
      rw [hparse] at huser
      exact absurd huser (by simp [Except.toOption])
  · rw [hname, htext]
    decide

end TkeyFido2
