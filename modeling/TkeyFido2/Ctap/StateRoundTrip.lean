import TkeyFido2.Cbor.RoundTrip
import TkeyFido2.Ctap.Device

/-!
# Reading a written state file

`authenticator_read_state` undoes `authenticator_write_state`: the encoding fits into the envelope,
the MAC verifies and the loop over the map reads every field back.
-/

namespace TkeyFido2

open Cbor

/-! ## The envelope -/

/-- The members of the map, keys and values in turn. -/
def stateItems (s : AuthState) : List Item :=
  [.int 0, .int s.version.toNat, .int 1, .int s.appVersion.toNat, .int 10, .int s.isPinSet.toNat,
    .int 11, .int s.remainingTries.toInt, .int 12, .bytes s.pinHashEnc.toList,
    .int 13, .bytes s.pinHashIv.toList, .int 20, .int s.rkStored.toNat,
    .int 30, .bytes s.keySalt.toList]

/-- The encoded state. -/
def stateBytes (s : AuthState) : List UInt8 :=
  Encoder.numberBytes 8 5 ++ (stateItems s).flatMap Item.enc

/-- Magic byte, MAC and encoded state. -/
def stateFileOf (P : Platform) (s : AuthState) : List UInt8 :=
  [stateMagic] ++ deviceMac P (stateBytes s) ++ stateBytes s

theorem small_natCast {n : Nat} (h : n < 2 ^ 63) : (Item.int n).Small :=
  ⟨by omega, by exact_mod_cast h⟩

theorem stateItems_small (s : AuthState) : ∀ i ∈ stateItems s, i.Small := by
  have h8 (v : UInt8) : v.toNat < 2 ^ 63 := lt_trans v.toNat_lt (by decide)
  have h16 (v : UInt16) : v.toNat < 2 ^ 63 := lt_trans v.toNat_lt (by decide)
  have h32 (v : UInt32) : v.toNat < 2 ^ 63 := lt_trans v.toNat_lt (by decide)
  have ht : (Item.int s.remainingTries.toInt).Small := by
    have h₁ := s.remainingTries.le_toInt
    have h₂ := s.remainingTries.toInt_lt
    exact ⟨by omega, by omega⟩
  have hb {n : Nat} (b : Bytes n) (hn : n < 2 ^ 32) : (Item.bytes b.toList).Small := by
    show b.toList.length < 2 ^ 32
    rwa [b.toList_length]
  simp only [stateItems, List.forall_mem_cons, List.not_mem_nil, false_imp_iff, implies_true, and_true]
  exact ⟨small_natCast (by decide), small_natCast (h8 _), small_natCast (by decide),
    small_natCast (h32 _), small_natCast (by decide), small_natCast (h8 _), small_natCast (by decide),
    ht, small_natCast (by decide), hb _ (by decide), small_natCast (by decide), hb _ (by decide),
    small_natCast (by decide), small_natCast (h16 _), small_natCast (by decide), hb _ (by decide)⟩

/-- The map fits into the buffer of the envelope. -/
theorem length_stateItems_le (s : AuthState) : ((stateItems s).flatMap Item.enc).length ≤ 170 := by
  have hint (v : Int) : (Item.int v).enc.length ≤ 9 := by
    rw [Item.enc, Item.payload, List.append_nil]
    exact length_numberBytes_le _ _
  have hsmall (v : Int) (h₀ : 0 ≤ v) (hv : v < 256) : (Item.int v).enc.length ≤ 2 := by
    rw [Item.enc, Item.payload, List.append_nil]
    refine length_numberBytes_small ?_ _
    simp only [Item.arg, if_pos h₀]
    omega
  have hbytes {n : Nat} (b : Bytes n) (hn : n < 256) : (Item.bytes b.toList).enc.length ≤ 2 + n := by
    rw [Item.enc, List.length_append, Item.payload, b.toList_length]
    exact Nat.add_le_add_right
      (length_numberBytes_small (by rwa [Item.arg, b.toList_length]) _) n
  have hu8 (v : UInt8) : (Item.int v.toNat).enc.length ≤ 2 := by
    have := v.toNat_lt
    exact hsmall _ (by omega) (by omega)
  have hkey (k : Int) (h : 0 ≤ k ∧ k < 256) := hsmall k h.1 h.2
  simp only [stateItems, List.flatMap_cons, List.flatMap_nil, List.length_append, List.length_nil]
  calc _ ≤ 2 + (2 + (2 + (9 + (2 + (2 + (2 + (9 + (2 + (18 + (2 + (18 + (2 + (9 + (2 + (66 + 0))))))))
          ))))))) := by
        refine Nat.add_le_add (hkey 0 (by decide)) (Nat.add_le_add (hu8 _) ?_)
        refine Nat.add_le_add (hkey 1 (by decide)) (Nat.add_le_add (hint _) ?_)
        refine Nat.add_le_add (hkey 10 (by decide)) (Nat.add_le_add (hu8 _) ?_)
        refine Nat.add_le_add (hkey 11 (by decide)) (Nat.add_le_add (hint _) ?_)
        refine Nat.add_le_add (hkey 12 (by decide)) (Nat.add_le_add (hbytes _ (by decide)) ?_)
        refine Nat.add_le_add (hkey 13 (by decide)) (Nat.add_le_add (hbytes _ (by decide)) ?_)
        refine Nat.add_le_add (hkey 20 (by decide)) (Nat.add_le_add (hint _) ?_)
        exact Nat.add_le_add (hkey 30 (by decide)) (Nat.add_le_add (hbytes _ (by decide)) le_rfl)
    _ ≤ 170 := by decide

theorem uint_eq_item (e : Encoder) (v : Nat) : e.uint v = e.item (.int v) := by
  simp [Encoder.uint, Encoder.item, Encoder.int]

theorem stateCborEncode_eq {bufLen : Nat} (s : AuthState) (h : 171 ≤ bufLen) :
    stateCborEncode bufLen s = .ok (stateBytes s) := by
  have hlen := length_stateItems_le s
  have hfold : stateCborEncode bufLen s = (do
      let map ← (Encoder.init bufLen).createMap 8
      let map ← (stateItems s).foldlM Encoder.item map
      let encoder ← (Encoder.init bufLen).close map
      pure encoder.out) := by
    simp only [stateCborEncode, stateItems, uint_eq_item, List.foldlM_cons, List.foldlM_nil,
      bind_assoc, pure_bind]
    rfl
  have hmap : (Encoder.init bufLen).createMap 8 = .ok
      { out := Encoder.numberBytes 8 5, room := bufLen - 1, remaining := 17 } :=
    Encoder.append_eq (show 1 ≤ bufLen by omega)
  rw [hfold, hmap]
  show ((stateItems s).foldlM Encoder.item _ >>= _) = _
  rw [Encoder.foldlM_item_eq (by show _ ≤ bufLen - 1; omega)]
  rfl

theorem stateEnvelope_eq (P : Platform) (s : AuthState) :
    stateEnvelope P s = .ok (stateFileOf P s) := by
  unfold stateEnvelope
  rw [stateCborEncode_eq s (by decide)]
  rfl

/-! ## Reading it back -/

/-- One member of the map: key, value, and on to the rest. -/
theorem stateDecodeLoop_step {fuel : Nat} {value : Item} {items : List Item} {s : AuthState}
    {it : CborValue} {r : CborM (Option AuthState)} (key : Nat)
    (s' : AuthState) (h : it.Iterates (.int key :: value :: items))
    (hm : ∀ it' : CborValue, it'.Iterates (value :: items) →
      stateDecodeMember s key it' = .ok (some (s', it')))
    (hrest : ∀ it' : CborValue, it'.Iterates items → stateDecodeLoop fuel s' it' = r) :
    stateDecodeLoop (fuel + 1) s it = r := by
  obtain ⟨it₁, hadv₁, h₁⟩ := h.advance
  obtain ⟨it₂, hadv₂, h₂⟩ := h₁.advance
  have hend : it.atEnd = false := by simpa using mt h.atEnd.mp (List.cons_ne_nil _ _)
  rw [stateDecodeLoop, hend, if_neg Bool.false_ne_true, h.getUint64]
  show (advance it >>= _) = _
  rw [hadv₁]
  show (stateDecodeMember s key it₁ >>= _) = _
  rw [hm it₁ h₁]
  show (advance it₁ >>= _) = _
  rw [hadv₂]
  exact hrest it₂ h₂

theorem getUnsigned_eq {bits v : Nat} {items : List Item} {it : CborValue}
    (h : it.Iterates (.int v :: items)) (hv : v < 2 ^ bits) : getUnsigned bits it = .ok (some v) := by
  unfold getUnsigned
  rw [h.getUint64]
  show Except.ok _ = _
  rw [if_pos hv]

theorem getI8_eq {v : Int8} {items : List Item} {it : CborValue}
    (h : it.Iterates (.int v.toInt :: items)) : getI8 it = .ok (some v) := by
  have h₁ := v.le_toInt
  have h₂ := v.toInt_lt
  unfold getI8
  rw [h.getInt64]
  show Except.ok _ = _
  rw [if_pos ⟨h₁, by omega⟩, Int8.ofInt_toInt]

theorem patch_zero_eq {n : Nat} (old b : Bytes n) : old.patch 0 b.toList = b := by
  have hb := b.toList_length
  have ho := old.toList_length
  refine Bytes.ext_toList ?_
  rw [Bytes.toList_patch_of_le _ _ _ (by omega), List.take_zero, List.nil_append,
    List.drop_of_length_le (by omega), List.append_nil]

theorem getField_eq {n : Nat} {b : Bytes n} {items : List Item} {it : CborValue} (old : Bytes n)
    (h : it.Iterates (.bytes b.toList :: items)) : getField it old = .ok (some b) := by
  obtain ⟨it', hcopy⟩ := h.copyByteString
  rw [b.toList_length] at hcopy
  unfold getField
  rw [hcopy]
  show Except.ok (some (old.patch 0 b.toList)) = _
  rw [patch_zero_eq]

/-- The loop reads every field back. -/
theorem stateDecodeLoop_stateItems {s₀ s : AuthState} {it : CborValue} {fuel : Nat}
    (hs : s.version = stateVersion) (h : it.Iterates (stateItems s)) :
    stateDecodeLoop (fuel + 9) s₀ it = .ok (some s) := by
  unfold stateItems at h
  let s₁ : AuthState := { s₀ with version := stateVersion }
  let s₂ : AuthState := { s₁ with appVersion := s.appVersion }
  let s₃ : AuthState := { s₂ with isPinSet := s.isPinSet }
  let s₄ : AuthState := { s₃ with remainingTries := s.remainingTries }
  let s₅ : AuthState := { s₄ with pinHashEnc := s.pinHashEnc }
  let s₆ : AuthState := { s₅ with pinHashIv := s.pinHashIv }
  let s₇ : AuthState := { s₆ with rkStored := s.rkStored }
  let s₈ : AuthState := { s₇ with keySalt := s.keySalt }
  refine stateDecodeLoop_step 0 s₁ h (fun it' hit => ?_) fun it₁ h₁ => ?_
  · simp only [stateDecodeMember, getUnsigned_eq hit s.version.toNat_lt]
    show Except.ok _ = _
    rw [Option.bind_some, hs, if_pos rfl]
  refine stateDecodeLoop_step 1 s₂ h₁ (fun it' hit => ?_) fun it₂ h₂ => ?_
  · simp only [stateDecodeMember, getUnsigned_eq hit s.appVersion.toNat_lt]
    simp [s₂, bind, Except.bind, pure, Except.pure]
  refine stateDecodeLoop_step 10 s₃ h₂ (fun it' hit => ?_) fun it₃ h₃ => ?_
  · simp only [stateDecodeMember, getUnsigned_eq hit s.isPinSet.toNat_lt]
    simp [s₃, bind, Except.bind, pure, Except.pure]
  refine stateDecodeLoop_step 11 s₄ h₃ (fun it' hit => ?_) fun it₄ h₄ => ?_
  · simp only [stateDecodeMember, getI8_eq hit]
    rfl
  refine stateDecodeLoop_step 12 s₅ h₄ (fun it' hit => ?_) fun it₅ h₅ => ?_
  · simp only [stateDecodeMember, getField_eq _ hit]
    rfl
  refine stateDecodeLoop_step 13 s₆ h₅ (fun it' hit => ?_) fun it₆ h₆ => ?_
  · simp only [stateDecodeMember, getField_eq _ hit]
    rfl
  refine stateDecodeLoop_step 20 s₇ h₆ (fun it' hit => ?_) fun it₇ h₇ => ?_
  · simp only [stateDecodeMember, getUnsigned_eq hit s.rkStored.toNat_lt]
    simp [s₇, bind, Except.bind, pure, Except.pure]
  refine stateDecodeLoop_step 30 s₈ h₇ (fun it' hit => ?_) fun it₈ h₈ => ?_
  · simp only [stateDecodeMember, getField_eq _ hit]
    rfl
  have hend : it₈.atEnd = true := h₈.atEnd.mpr rfl
  rw [stateDecodeLoop, hend, if_pos rfl]
  show Except.ok (some s₈) = _
  rw [show s₈ = { s with version := stateVersion } from rfl, ← hs]

theorem stateCborDecode_eq (s₀ s : AuthState) : ∃ map fuel, CborValue.Iterates map (stateItems s) ∧
    stateCborDecode s₀ (stateBytes s) = match stateDecodeLoop (fuel + 9) s₀ map with
      | .error (.err _) => .ok none
      | r => r := by
  obtain ⟨it, map, hinit, -, henter, hmap⟩ := parse_flat_map (n := 8) (stateItems s) rfl
    (by decide) (by decide) (stateItems_small s)
  have hrest : 16 ≤ map.rest.length := hmap.rest ▸ length_le_flatMap_enc (stateItems s)
  obtain ⟨fuel, hfuel⟩ : ∃ fuel, map.rest.length + 2 = fuel + 9 :=
    ⟨map.rest.length + 2 - 9, by omega⟩
  have hloop : (do
      let it ← cborParserInit (stateBytes s)
      let map ← enterContainer it
      stateDecodeLoop (map.rest.length + 2) s₀ map) = stateDecodeLoop (fuel + 9) s₀ map := by
    rw [stateBytes, hinit]
    show (enterContainer it >>= _) = _
    rw [henter, ← hfuel]
    rfl
  refine ⟨map, fuel, hmap, ?_⟩
  unfold stateCborDecode
  rw [hloop]
  rfl

/-- `state_cbor_decode` of an encoded state. -/
theorem stateCborDecode_stateBytes (s₀ : AuthState) {s : AuthState} (hs : s.version = stateVersion) :
    stateCborDecode s₀ (stateBytes s) = .ok (some s) := by
  obtain ⟨map, fuel, hmap, heq⟩ := stateCborDecode_eq s₀ s
  rw [heq, stateDecodeLoop_stateItems hs hmap]

theorem length_stateBytes_le (s : AuthState) : (stateBytes s).length ≤ 171 := by
  have hlen := length_stateItems_le s
  rw [stateBytes, List.length_append]
  exact (Nat.add_le_add_left hlen 1)

/-- A state of the known version is encoded within the room of the envelope, and decoded again into any
structure. -/
theorem state_format_round_trip (s₀ : AuthState) {s : AuthState} (hs : s.version = stateVersion) :
    ∃ cbor, stateCborEncode (stateEnvelopeBufSize - 1 - stateMacSize) s = .ok cbor ∧
      cbor.length ≤ 175 ∧ stateCborDecode s₀ cbor = .ok (some s) :=
  ⟨stateBytes s, stateCborEncode_eq s (by decide), (length_stateBytes_le s).trans (by decide),
    stateCborDecode_stateBytes s₀ hs⟩

/-- Negative tries, the largest numbers. -/
theorem state_format_round_trip_extremes :
    ∃ cbor, stateCborEncode (stateEnvelopeBufSize - 1 - stateMacSize)
        { version := 1, appVersion := 0xffffffff, isPinSet := 0xff, remainingTries := -128,
          rkStored := 0xffff } = .ok cbor ∧
      cbor.length ≤ 175 ∧ stateCborDecode { remainingTries := 7 } cbor = .ok (some
        { version := 1, appVersion := 0xffffffff, isPinSet := 0xff, remainingTries := -128,
          rkStored := 0xffff }) :=
  state_format_round_trip _ rfl

@[simp] theorem length_deviceMac {P : Platform} (data : List UInt8) : (deviceMac P data).length = 16 := by
  simp [deviceMac, stateMacSize]

theorem fsReadOpen_eq_some {file bytes : List UInt8} {n : Nat} :
    fsReadOpen file n = some bytes ↔ bytes = file ∧ file.length ≤ n := by
  unfold fsReadOpen
  split_ifs with h
  · simp only [reduceCtorEq, false_iff, not_and]
    omega
  · simp only [Option.some.injEq]
    exact ⟨fun h' => ⟨h'.symm, by omega⟩, fun h' => h'.1.symm⟩

theorem cborSize_toNat {n : Nat} (h : 17 ≤ n) (hn : n ≤ 192) : (cborSize n).toNat = n - 17 := by
  have h1 : (1 : UInt32).toNat = 1 := rfl
  have h16 : (16 : UInt32).toNat = 16 := rfl
  have hofNat : (UInt32.ofNat n).toNat = n := UInt32.toNat_ofNat_of_lt' (by have : UInt32.size = 2 ^ 32 := rfl; omega)
  unfold cborSize
  rw [UInt32.toNat_sub, UInt32.toNat_sub, hofNat, h1, h16]
  omega

/-- For a file shorter than the envelope the subtraction wraps. -/
theorem cborSize_wraps {n : Nat} (h : n < 17) : (cborSize n).toNat = 2 ^ 32 - 17 + n := by
  have h1 : (1 : UInt32).toNat = 1 := rfl
  have h16 : (16 : UInt32).toNat = 16 := rfl
  have hofNat : (UInt32.ofNat n).toNat = n := UInt32.toNat_ofNat_of_lt' (by have : UInt32.size = 2 ^ 32 := rfl; omega)
  unfold cborSize
  rw [UInt32.toNat_sub, UInt32.toNat_sub, hofNat, h1, h16]
  omega

/-- A file with the right magic byte and MAC. -/
theorem readEnvelope_of_mac {P : Platform} {file cbor : List UInt8} (s : AuthState)
    (h : fsReadOpen file stateEnvelopeBufSize = some (stateMagic :: (deviceMac P cbor ++ cbor))) :
    readEnvelope P s file = stateCborDecode s cbor := by
  have hdrop : (deviceMac P cbor ++ cbor).drop stateMacSize = cbor :=
    List.drop_left' (length_deviceMac cbor)
  have htake : (deviceMac P cbor ++ cbor).take stateMacSize = deviceMac P cbor :=
    List.take_left' (length_deviceMac cbor)
  have hlen : (deviceMac P cbor ++ cbor).length = 16 + cbor.length := by simp
  have hfits : cbor.length ≤ 175 := by
    obtain ⟨hfile, hle⟩ := fsReadOpen_eq_some.mp h
    rw [← hfile, List.length_cons, hlen] at hle
    have : stateEnvelopeBufSize = 192 := rfl
    omega
  have hread : ¬ stateEnvelopeBufSize
      < 1 + stateMacSize + (cborSize ((deviceMac P cbor ++ cbor).length + 1)).toNat := by
    rw [hlen, cborSize_toNat (by omega) (by omega)]
    have : stateEnvelopeBufSize = 192 := rfl
    have : stateMacSize = 16 := rfl
    omega
  unfold readEnvelope
  rw [h]
  simp only [ne_eq, not_true, if_false, hread, hdrop, htake]

theorem fsReadOpen_stateFileOf (P : Platform) (s : AuthState) :
    fsReadOpen (stateFileOf P s) stateEnvelopeBufSize
      = some (stateMagic :: (deviceMac P (stateBytes s) ++ stateBytes s)) := by
  have hlen := length_stateBytes_le s
  refine fsReadOpen_eq_some.mpr ⟨rfl, ?_⟩
  simp only [stateFileOf, List.length_append, length_deviceMac, stateEnvelopeBufSize, List.length_cons,
    List.length_nil]
  omega

/-- `authenticator_read_state` of a written file. -/
theorem readEnvelope_stateFileOf (P : Platform) (s₀ : AuthState) {s : AuthState}
    (hs : s.version = stateVersion) : readEnvelope P s₀ (stateFileOf P s) = .ok (some s) := by
  rw [readEnvelope_of_mac s₀ (fsReadOpen_stateFileOf P s), stateCborDecode_stateBytes s₀ hs]

/-- The world after `authenticator_write_state`. -/
def World.flushed (P : Platform) (w : World) : World := { w with
  stateFile := stateFileOf P w.state
  trace := w.trace ++ [.stateWritten w.state] }

@[simp] theorem flushed_state {P : Platform} (w : World) : (w.flushed P).state = w.state := rfl

/-- The state is always written: the encoding fits. -/
theorem authenticatorWriteState_eq {P : Platform} (w : World) :
    authenticatorWriteState P w = .ok () (w.flushed P) := by
  unfold authenticatorWriteState
  rw [Prog.get_bind, stateEnvelope_eq]
  rfl

end TkeyFido2
