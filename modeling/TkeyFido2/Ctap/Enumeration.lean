import TkeyFido2.Ctap.ResponseSize
import TkeyFido2.Ctap.RpBinding

/-!
# Enumerating RPs and credentials

The iteration state of `ctap_credential_management.c` as a cursor: what it stands for is the list of
records that the calls still have to return.  Every call takes the head of that list, and the first
call counts its length.
-/

namespace TkeyFido2

open Cbor Prog

/-! ## Responses that are encoded -/

namespace Cbor.Encoder

variable {e : Encoder} {v k n cost cost' : Nat} {s : List UInt8} {f g : Encoder → EncM Encoder}

/-- `f` writes one item of at most `cost` bytes. -/
def Writes (cost : Nat) (f : Encoder → EncM Encoder) : Prop :=
  ∀ e : Encoder, cost ≤ e.room → ∃ e', f e = .ok e' ∧ e.room ≤ e'.room + cost ∧ e'.remaining = e.remaining - 1

/-- `f` writes the `n` items that a container of `e` still has to get, at most `cost` bytes, and closes
it. -/
def Fills (e : Encoder) (n cost : Nat) (f : Encoder → EncM Encoder) : Prop :=
  ∀ m : Encoder, m.remaining = n + 1 → cost ≤ m.room →
    ∃ e', f m = .ok e' ∧ m.room ≤ e'.room + cost ∧ e'.remaining = e.remaining - 1

theorem Writes.mono (h : Writes cost f) (hle : cost ≤ cost') : Writes cost' f := by
  intro e hroom
  obtain ⟨e', he, hr, hc⟩ := h e (by omega)
  exact ⟨e', he, by omega, hc⟩

theorem writes_number : Writes 9 (·.number v k) := by
  intro e hroom
  have hlen := length_numberBytes_le v k
  refine ⟨_, append_eq ?_, ?_, rfl⟩
  · show (numberBytes v k).length ≤ e.room
    omega
  · show e.room ≤ e.room - (numberBytes v k).length + 9
    omega

theorem writes_int {v : Int} : Writes 9 (·.int v) := by
  intro e hroom
  unfold int
  split_ifs
  · exact writes_number e hroom
  · exact writes_number e hroom

theorem writes_string : Writes (s.length + 9) (·.string s k) := by
  intro e hroom
  obtain ⟨e', he, hr, hc⟩ := writes_number (v := s.length) (k := k) e (by omega)
  refine ⟨{ e' with out := e'.out ++ s, room := e'.room - s.length }, ?_, ?_, hc⟩
  · exact except_bind_eq_ok.mpr ⟨e', he, append_eq (by omega)⟩
  · show e.room ≤ e'.room - s.length + (s.length + 9)
    omega

theorem writes_byteString : Writes (s.length + 9) (·.byteString s) := writes_string

theorem writes_textString : Writes (s.length + 9) (·.textString s) := writes_string

theorem close_eq {m : Encoder} (h : m.remaining = 1) :
    e.close m = .ok { out := m.out, room := m.room, remaining := e.remaining - 1 } := by
  unfold close
  rw [if_neg (by simp [h])]

theorem fills_close : Fills e 0 0 e.close := by
  intro m hc _
  exact ⟨_, close_eq hc, Nat.le_add_right _ _, rfl⟩

theorem Writes.andThen (hf : Writes cost f) (hg : Fills e n cost' g) :
    Fills e (n + 1) (cost + cost') fun m => f m >>= g := by
  intro m hc hroom
  obtain ⟨m₁, h₁, r₁, c₁⟩ := hf m (by omega)
  obtain ⟨e', he, r₂, c₂⟩ := hg m₁ (by omega) (by omega)
  exact ⟨e', except_bind_eq_ok.mpr ⟨m₁, h₁, he⟩, by omega, c₂⟩

theorem createMap_eq (n : Nat) (h : 9 ≤ e.room) :
    ∃ m, e.createMap n = .ok m ∧ e.room ≤ m.room + 9 ∧ m.remaining = 2 * n + 1 := by
  have hlen := length_numberBytes_le n 5
  refine ⟨_, append_eq ?_, ?_, rfl⟩
  · show (numberBytes n 5).length ≤ e.room
    omega
  · show e.room ≤ e.room - (numberBytes n 5).length + 9
    omega

theorem writes_map {F : Encoder → Encoder → EncM Encoder} (h : ∀ e, Fills e (2 * n) cost (F e)) :
    Writes (9 + cost) fun e => e.createMap n >>= F e := by
  intro e hroom
  obtain ⟨m, hm, r₁, c₁⟩ := createMap_eq n (e := e) (by omega)
  obtain ⟨e', he, r₂, c₂⟩ := h e m c₁ (by omega)
  exact ⟨e', except_bind_eq_ok.mpr ⟨m, hm, he⟩, by omega, c₂⟩

end Cbor.Encoder

open Encoder

section Items

theorem writes_coseKeyAdd (x y : Bytes 32) (alg : CoseAlg) : Writes 200 fun e => coseKeyAdd e x y alg := by
  have hx := x.toList_length
  have hy := y.toList_length
  unfold coseKeyAdd
  by_cases heddsa : alg = .eddsa
  · simp only [heddsa, decide_true, if_true]
    refine (writes_map (n := 4) fun e => writes_int.andThen <| writes_int.andThen <| writes_int.andThen <|
      writes_int.andThen <| writes_int.andThen <| writes_int.andThen <| writes_int.andThen <|
      writes_byteString.andThen fills_close).mono ?_
    omega
  · simp only [heddsa, decide_false, if_false, Bool.false_eq_true]
    refine (writes_map (n := 5) fun e => writes_int.andThen <| writes_int.andThen <| writes_int.andThen <|
      writes_int.andThen <| writes_int.andThen <| writes_int.andThen <| writes_int.andThen <|
      writes_byteString.andThen <| writes_int.andThen <| writes_byteString.andThen fills_close).mono ?_
    omega

theorem writes_credentialDescriptor (cred : CredentialDescriptor) :
    Writes 200 fun e => ctapCborEncodeCredentialDescriptor e cred := by
  have hid : cred.idBytes.length ≤ 57 := by
    unfold CredentialDescriptor.idBytes
    exact (List.length_take_le' _ _).trans (by simp)
  have hlen : (ascii "id").length + (ascii "type").length + (ascii "public-key").length = 16 := by decide
  refine (writes_map (n := 2) fun e => writes_textString.andThen <| writes_byteString.andThen <|
    writes_textString.andThen <| writes_textString.andThen fills_close).mono ?_
  omega

theorem length_cstr_le (l : List UInt8) : (cstr l).length ≤ l.length := (List.takeWhile_prefix _).length_le

theorem writes_userEntity (user : UserEntity) (isVerified : Bool) :
    Writes 300 fun e => ctapCborEncodeUserEntity e user isVerified := by
  have hid : (user.id.toList.take user.idSize.toNat).length ≤ 64 :=
    (List.length_take_le' _ _).trans (by simp)
  have hname : (cstr user.name.toList).length ≤ 65 := (length_cstr_le _).trans (by simp)
  have hdisp : (cstr user.displayName.toList).length ≤ 32 := (length_cstr_le _).trans (by simp)
  have hlen : (ascii "id").length + (ascii "name").length + (ascii "displayName").length = 17 := by decide
  unfold ctapCborEncodeUserEntity
  by_cases hnamed : user.name.byte 0 ≠ 0 ∧ isVerified = true
  · simp only [hnamed, ne_eq, not_false_eq_true, and_self, decide_true, if_true]
    refine (writes_map (n := 3) fun e => writes_textString.andThen <| writes_byteString.andThen <|
      writes_textString.andThen <| writes_textString.andThen <| writes_textString.andThen <|
      writes_textString.andThen fills_close).mono ?_
    omega
  · simp only [hnamed, decide_false, if_false, Bool.false_eq_true, pure_bind]
    refine (writes_map (n := 1) fun e => writes_textString.andThen <| writes_byteString.andThen
      fills_close).mono ?_
    omega

end Items

section Responses

variable {P : Platform} {w : World} {n cost cost' : Nat} {f : Encoder → EncM Encoder}
  {k : Encoder → CtapM (List UInt8)}

/-- `k` writes the `n` items that the response still has to get and returns; it may draw random
numbers. -/
def Completes (w : World) (n cost : Nat) (k : Encoder → CtapM (List UInt8)) : Prop :=
  ∀ m : Encoder, m.remaining = n + 1 → cost ≤ m.room → ∃ out pos, k m w = .ok out { w with rngPos := pos }

theorem encode_eq {α : Type} {x : EncM α} {a : α} (h : x = .ok a) : encode x w = .ok a w := by
  rw [h]
  rfl

theorem completes_close :
    Completes w 0 0 fun m => encode (responseEncoder.close m) >>= fun e => pure e.out := by
  intro m hc _
  exact ⟨m.out, w.rngPos, (bind_of_ok (encode_eq (close_eq hc))).trans rfl⟩

theorem Completes.item (hf : Writes cost f) (hk : Completes w n cost' k) :
    Completes w (n + 1) (cost + cost') fun m => encode (f m) >>= k := by
  intro m hc hroom
  obtain ⟨m₁, h₁, r₁, c₁⟩ := hf m (by omega)
  obtain ⟨out, pos, hok⟩ := hk m₁ (by omega) (by omega)
  exact ⟨out, pos, (bind_of_ok (encode_eq h₁)).trans hok⟩

theorem Completes.closeInner {e : Encoder} (hk : Completes w n cost k) (he : e.remaining = n + 2) :
    Completes w 0 cost fun m => encode (e.close m) >>= k := by
  intro m hc hroom
  obtain ⟨out, pos, hok⟩ := hk { out := m.out, room := m.room, remaining := e.remaining - 1 }
    (by show e.remaining - 1 = _; omega) hroom
  exact ⟨out, pos, (bind_of_ok (encode_eq (close_eq hc))).trans hok⟩

theorem Completes.openInner {j : Nat} {K : Encoder → Encoder → CtapM (List UInt8)}
    (h : ∀ m, m.remaining = n + 2 → Completes w (2 * j) cost (K m)) :
    Completes w (n + 1) (9 + cost) fun m => encode (m.createMap j) >>= K m := by
  intro m hc hroom
  obtain ⟨m₁, h₁, r₁, c₁⟩ := createMap_eq j (e := m) (by omega)
  obtain ⟨out, pos, hok⟩ := h m hc m₁ c₁ (by omega)
  exact ⟨out, pos, (bind_of_ok (encode_eq h₁)).trans hok⟩

/-- The total of the first response. -/
theorem Completes.total {key : Int} {total : Nat} (hk : Completes w n cost k) :
    Completes w (n + if 0 < total then 2 else 0) (18 + cost) fun m => encode (encodeTotal m key total) >>= k := by
  intro m hc hroom
  by_cases htotal : 0 < total
  · rw [if_pos htotal] at hc
    obtain ⟨m₁, h₁, r₁, c₁⟩ := writes_int (v := key) m (by omega)
    obtain ⟨m₂, h₂, r₂, c₂⟩ := writes_int (v := total) m₁ (by omega)
    have hboth : encodeTotal m key total = .ok m₂ := by
      unfold encodeTotal
      rw [if_pos htotal]
      exact except_bind_eq_ok.mpr ⟨m₁, h₁, h₂⟩
    obtain ⟨out, pos, hok⟩ := hk m₂ (by omega) (by omega)
    exact ⟨out, pos, (bind_of_ok (encode_eq hboth)).trans hok⟩
  · rw [if_neg htotal] at hc
    have hnone : encodeTotal m key total = .ok m := by
      unfold encodeTotal
      rw [if_neg htotal]
      rfl
    obtain ⟨out, pos, hok⟩ := hk m hc (by omega)
    exact ⟨out, pos, (bind_of_ok (encode_eq hnone)).trans hok⟩

theorem Completes.response {j : Nat} (h : Completes w n cost k) (hn : n = 2 * j) (hcost : cost + 9 ≤ 1200) :
    ∃ out pos, (encode (responseEncoder.createMap j) >>= k) w = .ok out { w with rngPos := pos } := by
  subst hn
  obtain ⟨m, hm, r, c⟩ := createMap_eq j (e := responseEncoder) (by decide)
  have hroom : responseEncoder.room = 1200 := rfl
  obtain ⟨out, pos, hok⟩ := h m c (by omega)
  exact ⟨out, pos, (bind_of_ok (encode_eq hm)).trans hok⟩

/-- `cbor_encode_enumerate_rp` succeeds. -/
theorem cborEncodeEnumerateRp_ok (rk : ResidentKey) (total : Nat) (w : World) :
    ∃ out pos, cborEncodeEnumerateRp rk total w = .ok out { w with rngPos := pos } := by
  have hlen : (ascii "id").length + (ascii "name").length = 6 := by decide
  have hname : (cstr rk.user.name.toList).length ≤ 65 := (length_cstr_le _).trans (by simp)
  have hhash := rk.rpIdHash.toList_length
  have hid : (if rk.rpIdSize.toNat ≤ 32 then rk.rpId.toList.take rk.rpIdSize.toNat else []).length ≤ 32 := by
    split_ifs with h
    · exact (List.length_take_le _ _).trans h
    · simp
  refine Completes.response (.item writes_int <| .openInner fun m hm => .item writes_textString <|
    .item writes_textString <| .item writes_textString <| .item writes_textString <| .closeInner
    (.item writes_int <| .item writes_byteString <| .total completes_close) hm) ?_ ?_
  · split_ifs <;> rfl
  · omega

theorem Completes.coseKey {data : List UInt8} {alg : CoseAlg} (hk : ∀ pos, Completes { w with rngPos := pos } n cost k)
    (halg : alg = .es256 ∨ alg = .eddsa) :
    Completes w (n + 1) (200 + cost) fun m => coseKeyGenerate P m data .pubKey (some alg) >>= k := by
  intro m hc hroom
  have hkey (x y : Bytes 32) : ∃ m₁, (coseKeyAdd m x y alg).toOption.getD m = m₁ ∧
      m.room ≤ m₁.room + 200 ∧ m₁.remaining = n + 1 := by
    obtain ⟨m₁, h₁, r₁, c₁⟩ := writes_coseKeyAdd x y alg m (by omega)
    have h₁' : coseKeyAdd m x y alg = .ok m₁ := h₁
    rw [h₁']
    exact ⟨m₁, rfl, r₁, by omega⟩
  have hgen : ∃ m₁ pos, coseKeyGenerate P m data .pubKey (some alg) w = .ok m₁ { w with rngPos := pos } ∧
      m.room ≤ m₁.room + 200 ∧ m₁.remaining = n + 1 := by
    rcases halg with rfl | rfl
    · obtain ⟨pub, w₁, hpub, pos, rfl⟩ : ∃ pub w₁, cryptoEcc256DerivePublicKey P data w = .ok pub w₁ ∧
          ∃ pos, w₁ = { w with rngPos := pos } := ⟨_, _, rfl, _, rfl⟩
      obtain ⟨m₁, h₁, hm₁⟩ := hkey (pub.slice 0 32) (pub.slice 32 32)
      refine ⟨m₁, pos, ?_, hm₁⟩
      show (cryptoEcc256DerivePublicKey P data >>= fun pub => _) w = _
      rw [bind_of_ok hpub, h₁]
      rfl
    · obtain ⟨m₁, h₁, hm₁⟩ := hkey
        (P.prims.ed25519PublicKey (cryptoDeriveCredentialKey P.prims w.keys data)) (Bytes.zero 32)
      exact ⟨m₁, w.rngPos, by rw [← h₁]; rfl, hm₁⟩
  obtain ⟨m₁, pos, hm₁, r₁, c₁⟩ := hgen
  obtain ⟨out, pos', hok⟩ := hk pos m₁ c₁ (by omega)
  exact ⟨out, pos', (bind_of_ok hm₁).trans hok⟩

/-- `cbor_encode_enumerate_credential` succeeds. -/
theorem cborEncodeEnumerateCredential_ok (rk : ResidentKey) (total : Nat) (w : World) :
    ∃ out pos, cborEncodeEnumerateCredential P rk total w = .ok out { w with rngPos := pos } := by
  have halg : ctapRestoreMetadataCoseAlg P.prims w.keys rk.id = .es256 ∨
      ctapRestoreMetadataCoseAlg P.prims w.keys rk.id = .eddsa := by
    unfold ctapRestoreMetadataCoseAlg
    split_ifs <;> simp
  unfold cborEncodeEnumerateCredential
  rw [get_bind]
  refine Completes.response (.item writes_int <| .item (writes_userEntity _ _) <| .item writes_int <|
    .item (writes_credentialDescriptor _) <| .item writes_int <| .coseKey (fun pos => .total <|
    .item writes_int <| .item writes_int completes_close) halg) ?_ ?_
  · split_ifs <;> rfl
  · omega

end Responses

/-! ## The RPs of a file -/

section Firsts

variable {α β : Type} [DecidableEq β] {key : α → β} {l : List α} {seen : List β} {x : β}

/-- The first element for each key that was not yet seen. -/
def firstsBy (key : α → β) : List α → List β → List α
  | [], _ => []
  | a :: l, seen => if key a ∈ seen then firstsBy key l seen else a :: firstsBy key l (seen ++ [key a])

theorem firstsBy_sublist : (firstsBy key l seen).Sublist l := by
  induction l generalizing seen with
  | nil => exact .slnil
  | cons a l ih =>
    unfold firstsBy
    split_ifs
    · exact ih.cons a
    · exact ih.cons_cons a

theorem mem_map_firstsBy : x ∈ (firstsBy key l seen).map key ↔ x ∈ l.map key ∧ x ∉ seen := by
  induction l generalizing seen with
  | nil => simp [firstsBy]
  | cons a l ih =>
    unfold firstsBy
    split_ifs with ha
    · rw [ih, List.map_cons, List.mem_cons]
      constructor
      · exact fun h => ⟨.inr h.1, h.2⟩
      · rintro ⟨rfl | h, hseen⟩
        · exact absurd ha hseen
        · exact ⟨h, hseen⟩
    · rw [List.map_cons, List.mem_cons, List.map_cons, List.mem_cons, ih, List.mem_append, List.mem_singleton]
      constructor
      · rintro (rfl | ⟨h, hseen⟩)
        · exact ⟨.inl rfl, ha⟩
        · exact ⟨.inr h, fun hs => hseen (.inl hs)⟩
      · rintro ⟨rfl | h, hseen⟩
        · exact .inl rfl
        · by_cases hx : x = key a
          · exact .inl hx
          · exact .inr ⟨h, fun hs => hs.elim hseen hx⟩

theorem nodup_map_firstsBy : ((firstsBy key l seen).map key).Nodup := by
  induction l generalizing seen with
  | nil => exact List.nodup_nil
  | cons a l ih =>
    unfold firstsBy
    split_ifs
    · exact ih
    · rw [List.map_cons, List.nodup_cons]
      exact ⟨fun h => (mem_map_firstsBy.mp h).2 (by simp), ih⟩

end Firsts

section File

variable {file l : List ResidentKey} {index : Nat} {seen : List (List UInt8)} {found : List UInt8}

/-- The record at an index of the list of `scan_file_unique_rp`. -/
def recordAt (file : List ResidentKey) (i : UInt8) : ResidentKey := file.getD i.toNat {}

/-- What `scan_file_unique_rp` finds: the first record of each RP, while there is room for it. -/
theorem uniqueRpLoop_eq (hl : file.drop index = l) (hlen : file.length ≤ 200)
    (hvalid : ∀ rk ∈ l, residentKeyIsValid rk = true) (hseen : seen.Nodup)
    (hfew : ∀ t : List (List UInt8), t.Nodup → (∀ x ∈ t, x ∈ seen ∨ x ∈ l.map compareKey) → t.length ≤ 50) :
    (uniqueRpLoop l index seen found).map (recordAt file)
      = found.map (recordAt file) ++ firstsBy compareKey l seen := by
  induction l generalizing index seen found with
  | nil => simp [uniqueRpLoop, firstsBy]
  | cons rk l ih =>
    have hrest : file.drop (index + 1) = l := by
      rw [← List.drop_drop, hl]
      rfl
    have hget : file[index]? = some rk := by
      have h := congrArg List.head? hl
      rwa [List.head?_drop] at h
    have hindex : index < file.length := by
      by_contra h
      rw [List.getElem?_eq_none (by omega)] at hget
      cases hget
    have hvalid' : ∀ r ∈ l, residentKeyIsValid r = true := fun r hr => hvalid r (List.mem_cons_of_mem _ hr)
    unfold uniqueRpLoop firstsBy
    rw [if_neg (by simp [hvalid rk (List.mem_cons_self ..)])]
    by_cases hknown : compareKey rk ∈ seen
    · rw [if_pos hknown, if_pos hknown]
      refine ih hrest hvalid' hseen fun t ht hmem => hfew t ht fun x hx => ?_
      exact (hmem x hx).imp_right (List.mem_cons_of_mem _)
    · have hnew : (seen ++ [compareKey rk]).Nodup := by
        rw [List.nodup_append]
        exact ⟨hseen, by simp, fun a ha b hb => by
          rw [List.mem_singleton.mp hb]
          rintro rfl
          exact hknown ha⟩
      have hroom := hfew (seen ++ [compareKey rk]) hnew fun x hx => by
        rcases List.mem_append.mp hx with hx | hx
        · exact .inl hx
        · exact .inr (by rw [List.mem_singleton.mp hx]; exact List.mem_cons_self ..)
      rw [List.length_append, List.length_singleton] at hroom
      have hrecord : recordAt file (UInt8.ofNat index) = rk := by
        unfold recordAt
        rw [UInt8.toNat_ofNat', Nat.mod_eq_of_lt (by omega), List.getD_eq_getElem?_getD, hget]
        rfl
      rw [if_neg hknown, if_neg hknown, if_pos (by show seen.length < 50; omega),
        ih hrest hvalid' hnew, List.map_append, List.map_singleton, hrecord, List.append_assoc]
      · rfl
      · intro t ht hmem
        refine hfew t ht fun x hx => ?_
        rcases hmem x hx with h | h
        · rcases List.mem_append.mp h with h | h
          · exact .inl h
          · exact .inr (by rw [List.mem_singleton.mp h]; exact List.mem_cons_self ..)
        · exact .inr (List.mem_cons_of_mem _ h)

end File

/-- The stores that an enumeration covers: valid counts, at most `maxUniqueRp` RPs in a file, and RPs
that `scan_file_unique_rp` tells apart. -/
structure World.Enumerable (w : World) : Prop where
  counts : ∀ rk ∈ w.records, rk.id.count ≠ 0 ∧ rk.id.count ≠ 0xffffffff
  few : ∀ n, ((w.rkFiles n).map (·.id.rpIdLookup)).dedup.length ≤ 50
  differ : ∀ rk ∈ w.records, ∀ rk' ∈ w.records, rk.id.rpIdLookup.toList.take 8 = rk'.id.rpIdLookup.toList.take 8 →
    rk.id.rpIdLookup = rk'.id.rpIdLookup

section Rps

variable {P : Platform} {w : World} {n : Nat}

theorem mem_rkFileNo {rk : ResidentKey} (h : rk ∈ rkFileNo w n) : rk ∈ w.records := by
  unfold rkFileNo at h
  split_ifs at h with hn
  · exact mem_records.mpr ⟨_, h⟩
  · cases h

theorem length_rkFileNo (hsize : ∀ n, (w.rkFiles n).length ≤ 200) (n : Nat) : (rkFileNo w n).length ≤ 200 := by
  unfold rkFileNo
  split_ifs
  · exact hsize _
  · simp

theorem World.Enumerable.valid (he : w.Enumerable) {rk : ResidentKey} (h : rk ∈ w.records) :
    residentKeyIsValid rk = true := by
  obtain ⟨h0, hmax⟩ := he.counts rk h
  have hpos : (0 : UInt32) < rk.id.count := UInt32.pos_iff_ne_zero.mpr h0
  simp [residentKeyIsValid, hpos, hmax]

/-- No more keys than RPs. -/
theorem World.Enumerable.few_keys (he : w.Enumerable) {t : List (List UInt8)} (ht : t.Nodup)
    (hmem : ∀ x ∈ t, x ∈ (rkFileNo w n).map compareKey) : t.length ≤ 50 := by
  unfold rkFileNo at hmem
  split_ifs at hmem with hn
  · have hsub : t ⊆ ((w.rkFiles ⟨n, hn⟩).map (·.id.rpIdLookup)).dedup.map fun l => l.toList.take 8 := by
      intro x hx
      obtain ⟨rk, hrk, rfl⟩ := List.mem_map.mp (hmem x hx)
      exact List.mem_map.mpr ⟨rk.id.rpIdLookup, List.mem_dedup.mpr (List.mem_map_of_mem hrk), rfl⟩
    have hle := (ht.subperm hsub).length_le
    rw [List.length_map] at hle
    exact hle.trans (he.few _)
  · have hnil : t = [] := List.eq_nil_iff_forall_not_mem.mpr fun x hx => by simpa using hmem x hx
    rw [hnil]
    simp

/-- The records that stand for the RPs of a file. -/
def rpsOf (file : List ResidentKey) : List ResidentKey := (scanFileUniqueRp file).map (recordAt file)

theorem World.Enumerable.rpsOf_eq (he : w.Enumerable) (hsize : ∀ n, (w.rkFiles n).length ≤ 200) (n : Nat) :
    rpsOf (rkFileNo w n) = firstsBy compareKey (rkFileNo w n) [] := by
  have hlen := length_rkFileNo hsize n
  unfold rpsOf scanFileUniqueRp
  rw [if_neg (by omega)]
  exact uniqueRpLoop_eq (show (rkFileNo w n).drop 0 = rkFileNo w n from rfl) hlen
    (fun rk h => he.valid (mem_rkFileNo h)) List.nodup_nil
    fun t ht hmem => he.few_keys ht fun x hx => (hmem x hx).resolve_left (by simp)

theorem World.Enumerable.length_scan (he : w.Enumerable) (hsize : ∀ n, (w.rkFiles n).length ≤ 200) (n : Nat) :
    (scanFileUniqueRp (rkFileNo w n)).length ≤ 50 := by
  have hlen : (scanFileUniqueRp (rkFileNo w n)).length = (rpsOf (rkFileNo w n)).length := by simp [rpsOf]
  have hnodup : ((firstsBy compareKey (rkFileNo w n) []).map compareKey).Nodup := nodup_map_firstsBy
  have hkeys := he.few_keys (n := n) hnodup fun x hx => (mem_map_firstsBy.mp hx).1
  rw [List.length_map] at hkeys
  rw [hlen, he.rpsOf_eq hsize]
  exact hkeys

/-- The RPs of the files from a number on. -/
def rpsFrom (w : World) (n : Nat) : List ResidentKey :=
  (List.range' n (16 - n)).flatMap fun n => rpsOf (rkFileNo w n)

theorem rpsFrom_eq_append (h : n < 16) : rpsFrom w n = rpsOf (rkFileNo w n) ++ rpsFrom w (n + 1) := by
  unfold rpsFrom
  rw [show 16 - n = (16 - (n + 1)) + 1 by omega, List.range'_succ, List.flatMap_cons]

theorem rpsFrom_of_le (h : 16 ≤ n) : rpsFrom w n = [] := by
  unfold rpsFrom
  rw [show 16 - n = 0 by omega]
  rfl

end Rps

/-! ## The cursor over the RPs -/

/-- The enumeration of RPs has yet to return `rest`: what is left of the list of the current file, and
the files behind it. -/
structure RpCursor (w : World) (cm : CredMgmtState) (rest : List ResidentKey) : Prop where
  file : cm.fileIdx.toNat < 16
  len : cm.lenListUniqueRps.toNat = (scanFileUniqueRp (rkFileNo w cm.fileIdx.toNat)).length
  list : cm.listUniqueRps.toList.take cm.lenListUniqueRps.toNat = scanFileUniqueRp (rkFileNo w cm.fileIdx.toNat)
  left : rest = (rpsOf (rkFileNo w cm.fileIdx.toNat)).drop cm.rkIdx.toNat ++ rpsFrom w (cm.fileIdx.toNat + 1)

/-- The part of the enumeration state that `get_next_unique_rp` keeps. -/
structure SameEnumeration (cm cm' : CredMgmtState) : Prop where
  valid : cm'.valid = cm.valid
  initCmd : cm'.initCmd = cm.initCmd
  timestamp : cm'.timestamp = cm.timestamp

section Cursor

variable {P : Platform} {w : World} {cm : CredMgmtState} {rest : List ResidentKey} {rk : ResidentKey}

/-- The list of a file as `scan_file_unique_rp` stores it. -/
theorem toNat_length_scan (he : w.Enumerable) (hsize : ∀ n, (w.rkFiles n).length ≤ 200) (n : Nat) :
    (UInt8.ofNat (scanFileUniqueRp (rkFileNo w n)).length).toNat = (scanFileUniqueRp (rkFileNo w n)).length := by
  have hlen := he.length_scan hsize n
  rw [UInt8.toNat_ofNat', Nat.mod_eq_of_lt (by omega)]

/-- The cursor at the start of a file. -/
theorem rpCursor_of_file (he : w.Enumerable) (hsize : ∀ n, (w.rkFiles n).length ≤ 200) (hfile : cm.fileIdx.toNat < 16) (b : Bytes 50)
    (hidx : cm.rkIdx = 0) :
    RpCursor w { cm with
        lenListUniqueRps := UInt8.ofNat (scanFileUniqueRp (rkFileNo w cm.fileIdx.toNat)).length
        listUniqueRps := b.patch 0 (scanFileUniqueRp (rkFileNo w cm.fileIdx.toNat)) }
      (rpsFrom w cm.fileIdx.toNat) := by
  have hlen := he.length_scan hsize cm.fileIdx.toNat
  have htoNat := toNat_length_scan he hsize cm.fileIdx.toNat
  refine ⟨hfile, htoNat, ?_, ?_⟩
  · have h := Bytes.take_patch b 0 (scanFileUniqueRp (rkFileNo w cm.fileIdx.toNat)) (by omega)
    rw [Nat.zero_add] at h
    show (b.patch 0 _).toList.take (UInt8.ofNat _).toNat = _
    rw [htoNat, h]
    rfl
  · show _ = (rpsOf (rkFileNo w cm.fileIdx.toNat)).drop cm.rkIdx.toNat ++ _
    rw [hidx, rpsFrom_eq_append hfile]
    rfl

/-- The loop of `get_next_unique_rp` stops at a file with RPs, or behind the last one. -/
theorem nextFileWithRps_spec (he : w.Enumerable) (hsize : ∀ n, (w.rkFiles n).length ≤ 200) {fuel : Nat}
    (hfuel : 16 < cm.fileIdx.toNat + fuel) (hidx : cm.rkIdx = 0) (hlen : cm.lenListUniqueRps = 0)
    (hle : cm.fileIdx.toNat ≤ 16) :
    SameEnumeration cm (nextFileWithRps w fuel cm) ∧ (nextFileWithRps w fuel cm).rkIdx = 0 ∧
      ((rpsFrom w cm.fileIdx.toNat = [] ∧ (nextFileWithRps w fuel cm).lenListUniqueRps = 0) ∨
        ((nextFileWithRps w fuel cm).lenListUniqueRps ≠ 0 ∧
          RpCursor w (nextFileWithRps w fuel cm) (rpsFrom w cm.fileIdx.toNat))) := by
  induction fuel generalizing cm with
  | zero => omega
  | succ fuel ih =>
    unfold nextFileWithRps
    by_cases hfile : cm.fileIdx.toNat < 16
    · rw [if_pos hfile]
      by_cases hnil : scanFileUniqueRp (rkFileNo w cm.fileIdx.toNat) = []
      · have hnext : (cm.fileIdx + 1).toNat = cm.fileIdx.toNat + 1 := by
          rw [UInt8.toNat_add]
          exact Nat.mod_eq_of_lt (by show cm.fileIdx.toNat + 1 < 256; omega)
        have hrps : rpsFrom w cm.fileIdx.toNat = rpsFrom w (cm.fileIdx + 1).toNat := by
          rw [rpsFrom_eq_append hfile, hnext]
          simp [rpsOf, hnil]
        simp only [hnil, if_true, List.length_nil, Bytes.patch_nil]
        let cm₁ : CredMgmtState := { cm with
          lenListUniqueRps := UInt8.ofNat 0
          fileIdx := cm.fileIdx + 1 }
        have hfuel₁ : 16 < cm₁.fileIdx.toNat + fuel := by
          show 16 < (cm.fileIdx + 1).toNat + fuel
          omega
        have hrec := ih hfuel₁ hidx rfl (by show (cm.fileIdx + 1).toNat ≤ 16; omega)
        rw [hrps]
        exact ⟨⟨hrec.1.valid, hrec.1.initCmd, hrec.1.timestamp⟩, hrec.2⟩
      · simp only [hnil, if_false]
        refine ⟨⟨rfl, rfl, rfl⟩, hidx, .inr ⟨?_, rpCursor_of_file he hsize hfile _ hidx⟩⟩
        intro hzero
        have h := congrArg UInt8.toNat hzero
        rw [toNat_length_scan he hsize] at h
        exact hnil (List.eq_nil_of_length_eq_zero h)
    · rw [if_neg hfile]
      exact ⟨⟨rfl, rfl, rfl⟩, hidx, .inl ⟨rpsFrom_of_le (by omega), hlen⟩⟩

/-- The state from which `get_next_unique_rp` takes a record. -/
def CredMgmtState.advanced (w : World) (cm : CredMgmtState) : CredMgmtState :=
  if cm.lenListUniqueRps ≤ cm.rkIdx then
    nextFileWithRps w 17 { cm with
      fileIdx := cm.fileIdx + 1
      rkIdx := 0
      lenListUniqueRps := 0 }
  else cm

theorem length_rpsOf (file : List ResidentKey) : (rpsOf file).length = (scanFileUniqueRp file).length := by
  simp [rpsOf]

theorem RpCursor.advanced (he : w.Enumerable) (hsize : ∀ n, (w.rkFiles n).length ≤ 200) (hc : RpCursor w cm rest) :
    SameEnumeration cm (cm.advanced w) ∧
      ((rest = [] ∧ (cm.advanced w).lenListUniqueRps = 0) ∨
        ((cm.advanced w).rkIdx.toNat < (cm.advanced w).lenListUniqueRps.toNat ∧ RpCursor w (cm.advanced w) rest)) := by
  unfold CredMgmtState.advanced
  have hfile := hc.file
  by_cases hend : cm.lenListUniqueRps ≤ cm.rkIdx
  · rw [if_pos hend]
    have hle : cm.lenListUniqueRps.toNat ≤ cm.rkIdx.toNat := hend
    have hnext : (cm.fileIdx + 1).toNat = cm.fileIdx.toNat + 1 := by
      rw [UInt8.toNat_add]
      exact Nat.mod_eq_of_lt (by show cm.fileIdx.toNat + 1 < 256; omega)
    have hrest : rest = rpsFrom w (cm.fileIdx + 1).toNat := by
      rw [hc.left, List.drop_eq_nil_of_le (by rw [length_rpsOf, ← hc.len]; exact hle), hnext]
      rfl
    let cm₁ : CredMgmtState := { cm with
      fileIdx := cm.fileIdx + 1
      rkIdx := 0
      lenListUniqueRps := 0 }
    have hfuel : 16 < cm₁.fileIdx.toNat + 17 := by
      show 16 < (cm.fileIdx + 1).toNat + 17
      omega
    obtain ⟨hsame, hidx, hspec⟩ := nextFileWithRps_spec he hsize hfuel rfl rfl
      (by show (cm.fileIdx + 1).toNat ≤ 16; omega)
    refine ⟨⟨hsame.valid, hsame.initCmd, hsame.timestamp⟩, ?_⟩
    rw [hrest]
    refine hspec.imp_right fun h => ⟨?_, h.2⟩
    rw [hidx]
    exact UInt8.lt_iff_toNat_lt.mp (UInt8.pos_iff_ne_zero.mpr h.1)
  · rw [if_neg hend]
    exact ⟨⟨rfl, rfl, rfl⟩, .inr ⟨UInt8.lt_iff_toNat_lt.mp (UInt8.not_le.mp hend), hc⟩⟩

theorem getNextUniqueRp_eq (w : World) :
    getNextUniqueRp P w = if (w.cm.advanced w).lenListUniqueRps = 0 then .ok none { w with cm := w.cm.advanced w }
      else if rkFileNo w ((w.cm.advanced w).fileIdx.toNat % 16) = [] then
        .ok none { w with cm := w.cm.advanced w }
      else .ok (some ((recordAt (rkFileNo w ((w.cm.advanced w).fileIdx.toNat % 16))
          ((w.cm.advanced w).listUniqueRps.byte (w.cm.advanced w).rkIdx.toNat)).xcrypt P.prims w.keys))
        { w with cm := { w.cm.advanced w with rkIdx := (w.cm.advanced w).rkIdx + 1 } } := by
  unfold getNextUniqueRp
  rw [get_bind]
  have hadvanced : w.cm.advanced w = if w.cm.lenListUniqueRps ≤ w.cm.rkIdx then
      nextFileWithRps w 17 { w.cm with
        fileIdx := w.cm.fileIdx + 1
        rkIdx := 0
        lenListUniqueRps := 0 }
    else w.cm := rfl
  simp only
  rw [← hadvanced, bind_of_ok (show setCm (w.cm.advanced w) w = .ok () { w with cm := w.cm.advanced w } from rfl)]
  split_ifs <;> rfl

/-- `get_next_unique_rp` returns the next RP. -/
theorem getNextUniqueRp_some (he : w.Enumerable) (hsize : ∀ n, (w.rkFiles n).length ≤ 200) (hc : RpCursor w w.cm (rk :: rest)) :
    ∃ cm, getNextUniqueRp P w = .ok (some (rk.xcrypt P.prims w.keys)) { w with cm := cm } ∧
      SameEnumeration w.cm cm ∧ RpCursor w cm rest := by
  obtain ⟨hsame, ⟨hnil, -⟩ | ⟨hlt, hcur⟩⟩ := hc.advanced he hsize
  · cases hnil
  generalize hcm : w.cm.advanced w = cm at hsame hlt hcur
  have hscan := hcur.len
  have h50 := he.length_scan hsize cm.fileIdx.toNat
  have hfile : cm.fileIdx.toNat % 16 = cm.fileIdx.toNat := Nat.mod_eq_of_lt hcur.file
  have hne : cm.lenListUniqueRps ≠ 0 := by
    intro h
    rw [h] at hlt
    exact Nat.not_lt_zero _ hlt
  have hidx : (cm.rkIdx + 1).toNat = cm.rkIdx.toNat + 1 := by
    rw [UInt8.toNat_add]
    exact Nat.mod_eq_of_lt (by show cm.rkIdx.toNat + 1 < 256; omega)
  have hlen : cm.rkIdx.toNat < (rpsOf (rkFileNo w cm.fileIdx.toNat)).length := by
    rw [length_rpsOf]
    omega
  have hsplit := hcur.left
  rw [List.drop_eq_getElem_cons hlen, List.cons_append] at hsplit
  obtain ⟨hrk, hrest⟩ := List.cons.inj hsplit
  have hbyte : recordAt (rkFileNo w cm.fileIdx.toNat) (cm.listUniqueRps.byte cm.rkIdx.toNat) = rk := by
    have hget : (scanFileUniqueRp (rkFileNo w cm.fileIdx.toNat))[cm.rkIdx.toNat]?
        = cm.listUniqueRps.toList[cm.rkIdx.toNat]? := by
      rw [← hcur.list, List.getElem?_take, if_pos hlt]
    have hrec : (rpsOf (rkFileNo w cm.fileIdx.toNat))[cm.rkIdx.toNat]? = some rk := by
      rw [List.getElem?_eq_getElem hlen, hrk]
    unfold rpsOf at hrec
    rw [List.getElem?_map, hget] at hrec
    obtain ⟨b, hb, hbrk⟩ := Option.map_eq_some_iff.mp hrec
    unfold Bytes.byte
    rw [List.getD_eq_getElem?_getD, hb]
    exact hbrk
  have hnonempty : rkFileNo w cm.fileIdx.toNat ≠ [] := by
    intro h
    rw [h] at hlen
    exact Nat.not_lt_zero _ hlen
  refine ⟨{ cm with rkIdx := cm.rkIdx + 1 }, ?_, ⟨hsame.valid, hsame.initCmd, hsame.timestamp⟩, ?_⟩
  · rw [getNextUniqueRp_eq, hcm, if_neg hne, hfile, if_neg hnonempty, hbyte]
  · refine ⟨hcur.file, hcur.len, hcur.list, ?_⟩
    show rest = (rpsOf (rkFileNo w cm.fileIdx.toNat)).drop (cm.rkIdx + 1).toNat ++ rpsFrom w (cm.fileIdx.toNat + 1)
    rw [hidx, hrest]

/-- Behind the last RP `get_next_unique_rp` fails. -/
theorem getNextUniqueRp_none (he : w.Enumerable) (hsize : ∀ n, (w.rkFiles n).length ≤ 200) (hc : RpCursor w w.cm []) :
    ∃ cm, getNextUniqueRp P w = .ok none { w with cm := cm } := by
  obtain ⟨-, ⟨-, hzero⟩ | ⟨hlt, hcur⟩⟩ := hc.advanced he hsize
  · exact ⟨w.cm.advanced w, by rw [getNextUniqueRp_eq, if_pos hzero]⟩
  · have hdrop := (List.append_eq_nil_iff.mp hcur.left.symm).1
    have hle := List.drop_eq_nil_iff.mp hdrop
    rw [length_rpsOf, ← hcur.len] at hle
    omega

theorem rkFileNo_val (n : Fin 16) : rkFileNo w n.val = w.rkFiles n := by
  unfold rkFileNo
  rw [dif_pos n.isLt]

/-- All RPs, file by file. -/
theorem rpsFrom_zero (w : World) : rpsFrom w 0 = (List.finRange 16).flatMap fun n => rpsOf (w.rkFiles n) := by
  have hrange : List.range' 0 16 = (List.finRange 16).map Fin.val := by decide
  unfold rpsFrom
  rw [Nat.sub_zero, hrange, List.flatMap_map]
  simp only [rkFileNo_val]

/-- Files without RPs do not count. -/
theorem rpsFrom_skip {k : Nat} (hk : k ≤ 16) (hnil : ∀ n < k, scanFileUniqueRp (rkFileNo w n) = []) :
    rpsFrom w 0 = rpsFrom w k := by
  induction k with
  | zero => rfl
  | succ k ih =>
    rw [ih (by omega) fun n hn => hnil n (by omega), rpsFrom_eq_append (by omega)]
    simp [rpsOf, hnil k (by omega)]

/-- `get_count_unique_relying_parties` counts the RPs and sets the cursor before the first one. -/
theorem getCountUniqueRelyingParties_spec (he : w.Enumerable) (hsize : ∀ n, (w.rkFiles n).length ≤ 200) :
    ∃ cm, getCountUniqueRelyingParties w = .ok (rpsFrom w 0).length { w with cm := cm } ∧
      SameEnumeration w.cm cm ∧ (rpsFrom w 0 ≠ [] → RpCursor w cm (rpsFrom w 0)) := by
  have hcount : (((List.finRange 16).map fun n => (n, scanFileUniqueRp (w.rkFiles n))).map
      fun p => p.2.length).sum = (rpsFrom w 0).length := by
    rw [rpsFrom_zero, List.length_flatMap, List.map_map]
    refine congrArg List.sum (List.map_congr_left fun n _ => ?_)
    exact (length_rpsOf _).symm
  unfold getCountUniqueRelyingParties
  rw [get_bind]
  simp only [hcount]
  refine ⟨_, rfl, ?_⟩
  cases hfind : ((List.finRange 16).map fun n => (n, scanFileUniqueRp (w.rkFiles n))).find? fun p => p.2 ≠ [] with
  | none =>
    refine ⟨⟨rfl, rfl, rfl⟩, fun hne => absurd ?_ hne⟩
    rw [rpsFrom_zero, List.flatMap_eq_nil_iff]
    intro n hn
    have h := List.find?_eq_none.mp hfind (n, scanFileUniqueRp (w.rkFiles n)) (List.mem_map_of_mem hn)
    have hscan : scanFileUniqueRp (w.rkFiles n) = [] := by simpa using h
    simp [rpsOf, hscan]
  | some p =>
    obtain ⟨-, i, hi, hp, hbefore⟩ := List.find?_eq_some_iff_getElem.mp hfind
    have hi16 : i < 16 := by simpa using hi
    rw [List.getElem_map, List.getElem_finRange] at hp
    subst hp
    refine ⟨⟨rfl, rfl, rfl⟩, fun _ => ?_⟩
    have hfile : rkFileNo w i = w.rkFiles ⟨i, hi16⟩ := rkFileNo_val ⟨i, hi16⟩
    have hidx : (UInt8.ofNat i).toNat = i := by
      rw [UInt8.toNat_ofNat', Nat.mod_eq_of_lt (by omega)]
    have hskip : rpsFrom w 0 = rpsFrom w i := by
      refine rpsFrom_skip (by omega) fun n hn => ?_
      have h := hbefore n hn
      rw [List.getElem_map, List.getElem_finRange] at h
      rw [show rkFileNo w n = w.rkFiles ⟨n, by omega⟩ from rkFileNo_val ⟨n, by omega⟩]
      simpa using h
    let cm₁ : CredMgmtState := { w.cm with
      fileIdx := UInt8.ofNat i
      rkIdx := 0 }
    have hlt : cm₁.fileIdx.toNat < 16 := by
      show (UInt8.ofNat i).toNat < 16
      omega
    have hcur := rpCursor_of_file he hsize hlt w.cm.listUniqueRps rfl
    simp only [cm₁, hidx, hfile] at hcur
    rw [hskip]
    exact hcur

end Cursor

/-! ## The calls of an enumeration -/

/-- An enumeration that was begun with a sub-command is in progress. -/
structure World.Enumerating (cmd : UInt8) (w : World) : Prop where
  valid : w.cm.valid = true
  initCmd : w.cm.initCmd = cmd

/-- `w'` is `w` after a call that returned the head of a list: `rest` remains, and the time of the call
is noted. -/
structure Returned (cmd : UInt8) (Cursor : World → List ResidentKey → Prop) (rest : List ResidentKey)
    (w w' : World) : Prop where
  enumerating : w'.Enumerating cmd
  timestamp : w'.cm.timestamp = w.inputs.millis w.millisPos
  millisPos : w'.millisPos = w.millisPos + 1
  cursor : Cursor w' rest

/-- The response is the one for a record and a total, under the keys `k`. -/
def Shows (k : SessionKeys) (encode : ResidentKey → Nat → CtapM (List UInt8)) (rk : ResidentKey) (total : Nat)
    (out : List UInt8) : Prop :=
  ∃ w₁ w₂, w₁.keys = k ∧ encode rk total w₁ = .ok out w₂

section Calls

variable {P : Platform} {w : World} {rest : List ResidentKey} {rk : ResidentKey} {cmd : UInt8}

/-- `check_state` within the time limit. -/
theorem checkState_eq (hw : w.Enumerating cmd)
    (hnow : w.inputs.millis w.millisPos - w.cm.timestamp ≤ ctapStatefulTimeoutMs) :
    checkState cmd w = .ok true { w with
      cm := { w.cm with timestamp := w.inputs.millis w.millisPos }
      millisPos := w.millisPos + 1 } := by
  unfold checkState
  rw [get_bind]
  simp only [hw.valid, hw.initCmd, Bool.not_true, Bool.false_eq_true, if_false, ne_eq, not_true_eq_false]
  rw [bind_of_ok (show millis w = .ok (w.inputs.millis w.millisPos) { w with millisPos := w.millisPos + 1 } from rfl),
    if_neg (UInt32.not_lt.mpr hnow)]
  rfl

/-- `check_state` behind the time limit. -/
theorem checkState_late (hw : w.Enumerating cmd)
    (hnow : ctapStatefulTimeoutMs < w.inputs.millis w.millisPos - w.cm.timestamp) :
    checkState cmd w = .ok false { w with
      cm := {}
      millisPos := w.millisPos + 1 } := by
  unfold checkState
  rw [get_bind]
  simp only [hw.valid, hw.initCmd, Bool.not_true, Bool.false_eq_true, if_false, ne_eq, not_true_eq_false]
  rw [bind_of_ok (show millis w = .ok (w.inputs.millis w.millisPos) { w with millisPos := w.millisPos + 1 } from rfl),
    if_pos hnow]
  rfl

/-- The cursor over the RPs of a store that the enumeration covers. -/
structure AtRps (w : World) (rest : List ResidentKey) : Prop where
  enumerable : w.Enumerable
  size : ∀ n, (w.rkFiles n).length ≤ 200
  cursor : RpCursor w w.cm rest

theorem World.Enumerable.congr {w' : World} (he : w.Enumerable) (h : w'.rkFiles = w.rkFiles) : w'.Enumerable := by
  have hrecords : w'.records = w.records := by
    unfold World.records
    rw [h]
  exact ⟨by rw [hrecords]; exact he.counts, by rw [h]; exact he.few, by rw [hrecords]; exact he.differ⟩

theorem RpCursor.congr {w' : World} {cm : CredMgmtState} (hc : RpCursor w cm rest) (h : w'.rkFiles = w.rkFiles) :
    RpCursor w' cm rest := by
  have hno : rkFileNo w' = rkFileNo w := by
    funext n
    unfold rkFileNo
    rw [h]
  have hfrom : rpsFrom w' = rpsFrom w := by
    funext n
    unfold rpsFrom
    rw [hno]
  exact ⟨hc.file, by rw [hno]; exact hc.len, by rw [hno]; exact hc.list, by rw [hno, hfrom]; exact hc.left⟩

/-- The record that `get_next_unique_rp` returns, as a response. -/
theorem encodeNextRp (hat : AtRps w (rk :: rest)) (total : Nat) :
    ∃ out cm pos, (getNextUniqueRp P >>= fun
        | none => endEnumeration .notAllowed
        | some rk => cborEncodeEnumerateRp rk total) w
      = .ok out { w with
          cm := cm
          rngPos := pos } ∧
      SameEnumeration w.cm cm ∧ RpCursor w cm rest ∧
      Shows w.keys cborEncodeEnumerateRp (rk.xcrypt P.prims w.keys) total out := by
  obtain ⟨cm, hnext, hsame, hcur⟩ := getNextUniqueRp_some (P := P) hat.enumerable hat.size hat.cursor
  obtain ⟨out, pos, hout⟩ := cborEncodeEnumerateRp_ok (rk.xcrypt P.prims w.keys) total { w with cm := cm }
  refine ⟨out, cm, pos, ?_, hsame, hcur, ⟨{ w with cm := cm }, _, rfl, hout⟩⟩
  rw [bind_of_ok hnext]
  exact hout

theorem enumerateRpsGetNextRp_cons (hw : w.Enumerating 2)
    (hnow : w.inputs.millis w.millisPos - w.cm.timestamp ≤ ctapStatefulTimeoutMs)
    (hat : AtRps w (rk :: rest)) :
    ∃ out w', enumerateRpsGetNextRp P w = .ok out w' ∧ Returned 2 AtRps rest w w' ∧
      Shows w.keys cborEncodeEnumerateRp (rk.xcrypt P.prims w.keys) 0 out := by
  let w₁ : World := { w with
    cm := { w.cm with timestamp := w.inputs.millis w.millisPos }
    millisPos := w.millisPos + 1 }
  have hat₁ : AtRps w₁ (rk :: rest) :=
    ⟨hat.enumerable.congr rfl, hat.size, ⟨hat.cursor.file, hat.cursor.len, hat.cursor.list, hat.cursor.left⟩⟩
  obtain ⟨out, cm, pos, hok, hsame, hcur, hshows⟩ := encodeNextRp (P := P) hat₁ 0
  refine ⟨out, { w₁ with cm := cm, rngPos := pos }, ?_, ⟨⟨hsame.valid.trans hw.valid,
    hsame.initCmd.trans hw.initCmd⟩, hsame.timestamp, rfl, ⟨hat.enumerable.congr rfl, hat.size, hcur.congr rfl⟩⟩, hshows⟩
  unfold enumerateRpsGetNextRp
  rw [bind_of_ok (checkState_eq hw hnow), failIf_bind_of_not (by simp)]
  exact hok

theorem enumerateRpsGetNextRp_nil (hw : w.Enumerating 2)
    (hnow : w.inputs.millis w.millisPos - w.cm.timestamp ≤ ctapStatefulTimeoutMs) (hat : AtRps w []) :
    ∃ e w', enumerateRpsGetNextRp P w = .error (.status e) w' ∧ w'.cm.valid = false := by
  let w₁ : World := { w with
    cm := { w.cm with timestamp := w.inputs.millis w.millisPos }
    millisPos := w.millisPos + 1 }
  obtain ⟨cm, hnone⟩ := getNextUniqueRp_none (P := P) (w := w₁) (hat.enumerable.congr rfl) hat.size
    ⟨hat.cursor.file, hat.cursor.len, hat.cursor.list, hat.cursor.left⟩
  refine ⟨.notAllowed, { w₁ with cm := {} }, ?_, rfl⟩
  unfold enumerateRpsGetNextRp
  rw [bind_of_ok (checkState_eq hw hnow), failIf_bind_of_not (by simp), bind_of_ok hnone]
  rfl

theorem enumerateRpsGetNextRp_late (hw : w.Enumerating 2)
    (hnow : ctapStatefulTimeoutMs < w.inputs.millis w.millisPos - w.cm.timestamp) :
    ∃ e w', enumerateRpsGetNextRp P w = .error (.status e) w' ∧ w'.millisPos = w.millisPos + 1 ∧
      w'.cm.valid = false := by
  refine ⟨.notAllowed, _, bind_of_ok (checkState_late hw hnow), rfl, rfl⟩

theorem enumerateRpsGetNextRp_invalid (h : w.cm.valid = false) :
    enumerateRpsGetNextRp P w = .error (.status .notAllowed) w := by
  unfold enumerateRpsGetNextRp
  rw [bind_of_ok (checkState_invalid h)]
  rfl

/-- The state after `init_state`. -/
def World.begun (w : World) (cmd : UInt8) : World := { w with
  cm := { valid := true, timestamp := w.inputs.millis w.millisPos, initCmd := cmd }
  millisPos := w.millisPos + 1 }

theorem initState_eq (w : World) (cmd : UInt8) : initState cmd w = .ok () (w.begun cmd) := rfl

theorem enumerateRpsBegin_cons (he : w.Enumerable) (hsize : ∀ n, (w.rkFiles n).length ≤ 200)
    (hrps : rpsFrom w 0 = rk :: rest) :
    ∃ out w', enumerateRpsBegin P w = .ok out w' ∧ Returned 2 AtRps rest w w' ∧
      Shows w.keys cborEncodeEnumerateRp (rk.xcrypt P.prims w.keys) (rk :: rest).length out := by
  have hrps₁ : rpsFrom (w.begun 2) 0 = rk :: rest := hrps
  obtain ⟨cm, hcount, hsame, hcur⟩ := getCountUniqueRelyingParties_spec (w := w.begun 2) (he.congr rfl) hsize
  rw [hrps₁] at hcount hcur
  let w₂ : World := { w.begun 2 with cm := cm }
  have hat : AtRps w₂ (rk :: rest) := ⟨he.congr rfl, hsize, (hcur (List.cons_ne_nil _ _)).congr rfl⟩
  obtain ⟨out, cm', pos, hok, hsame', hcur', hshows⟩ := encodeNextRp (P := P) hat (rk :: rest).length
  refine ⟨out, { w₂ with cm := cm', rngPos := pos }, ?_, ⟨⟨hsame'.valid.trans hsame.valid,
    hsame'.initCmd.trans hsame.initCmd⟩, hsame'.timestamp.trans hsame.timestamp, rfl,
    ⟨he.congr rfl, hsize, hcur'.congr rfl⟩⟩, hshows⟩
  unfold enumerateRpsBegin
  rw [bind_of_ok (initState_eq w 2), bind_of_ok hcount]
  exact hok

theorem enumerateRpsBegin_nil (he : w.Enumerable) (hsize : ∀ n, (w.rkFiles n).length ≤ 200)
    (hrps : rpsFrom w 0 = []) :
    ∃ e w', enumerateRpsBegin P w = .error (.status e) w' ∧ w'.cm.valid = false := by
  have hrps₁ : rpsFrom (w.begun 2) 0 = [] := hrps
  obtain ⟨cm, hcount, -, -⟩ := getCountUniqueRelyingParties_spec (w := w.begun 2) (he.congr rfl) hsize
  rw [hrps₁] at hcount
  refine ⟨.noCredentials, { w.begun 2 with cm := {} }, ?_, rfl⟩
  unfold enumerateRpsBegin
  rw [bind_of_ok (initState_eq w 2), bind_of_ok hcount]
  rfl

end Calls

/-! ## The credentials of an RP -/

/-- The enumeration of the credentials of an RP has yet to return `rest`: what is left of its file. -/
structure AtCredentials (P : Platform) (hash : Bytes 32) (w : World) (rest : List ResidentKey) : Prop where
  size : ∀ n, (w.rkFiles n).length ≤ 200
  rpIdHash : w.cm.rpIdHash = hash
  left : rest = ((w.rkFiles (rkFile (rpIdLookupOf P.prims w.keys hash))).drop w.cm.rkIdx.toNat).filter
    (scanMatches (rpIdLookupOf P.prims w.keys hash))

section Credentials

variable {P : Platform} {w : World} {rest : List ResidentKey} {rk : ResidentKey} {L : Bytes 16} {hash : Bytes 32}

/-- `scan_rk` returns the first matching record and moves behind it. -/
theorem scanNext_cons (hsize : ∀ n, (w.rkFiles n).length ≤ 200)
    (h : ((w.rkFiles (rkFile L)).drop w.cm.rkIdx.toNat).filter (scanMatches L) = rk :: rest) :
    ∃ idx : UInt8, scanNext P L w = .ok (some (rk.xcrypt P.prims w.keys)) { w with cm := { w.cm with rkIdx := idx } } ∧
      ((w.rkFiles (rkFile L)).drop idx.toNat).filter (scanMatches L) = rest := by
  obtain ⟨pre, post, hsplit, hpre, hrk, hpost⟩ := List.filter_eq_cons_iff.mp h
  have hfind : ((w.rkFiles (rkFile L)).drop w.cm.rkIdx.toNat).findIdx? (scanMatches L) = some pre.length := by
    rw [hsplit, List.findIdx?_append, List.findIdx?_eq_none_iff.mpr (fun x hx => by simpa using hpre x hx)]
    simp [List.findIdx?_cons, hrk]
  have hget : ((w.rkFiles (rkFile L)).drop w.cm.rkIdx.toNat)[pre.length]? = some rk := by
    rw [hsplit, List.getElem?_append_right (le_refl _), Nat.sub_self]
    rfl
  have hlen := congrArg List.length hsplit
  rw [List.length_drop, List.length_append, List.length_cons] at hlen
  have h200 := hsize (rkFile L)
  have hidx : (UInt8.ofNat (w.cm.rkIdx.toNat + pre.length + 1)).toNat = w.cm.rkIdx.toNat + pre.length + 1 := by
    rw [UInt8.toNat_ofNat']
    exact Nat.mod_eq_of_lt (by omega)
  refine ⟨_, scanNext_some hfind hget, ?_⟩
  rw [hidx, Nat.add_assoc, ← List.drop_drop, hsplit, ← hpost]
  congr 1
  rw [← List.drop_drop, List.drop_left' rfl]
  rfl

theorem scanNext_nil (h : ((w.rkFiles (rkFile L)).drop w.cm.rkIdx.toNat).filter (scanMatches L) = []) :
    scanNext P L w = .ok none { w with cm := { w.cm with rkIdx := 0 } } := by
  refine scanNext_none (List.findIdx?_eq_none_iff.mpr fun x hx => ?_)
  simpa using List.filter_eq_nil_iff.mp h x hx

/-- The record that `get_next_rk` returns, as a response. -/
theorem encodeNextCredential (hat : AtCredentials P hash w (rk :: rest)) (total : Nat) (s : CtapError) :
    ∃ out cm pos, (scanNext P (rpIdLookupOf P.prims w.keys hash) >>= fun
        | none => endEnumeration s
        | some rk => cborEncodeEnumerateCredential P rk total) w
      = .ok out { w with
          cm := cm
          rngPos := pos } ∧
      SameEnumeration w.cm cm ∧ AtCredentials P hash { w with cm := cm } rest ∧
      Shows w.keys (cborEncodeEnumerateCredential P) (rk.xcrypt P.prims w.keys) total out := by
  obtain ⟨idx, hscan, hrest⟩ := scanNext_cons (P := P) hat.size hat.left.symm
  obtain ⟨out, pos, hout⟩ := cborEncodeEnumerateCredential_ok (P := P) (rk.xcrypt P.prims w.keys) total
    { w with cm := { w.cm with rkIdx := idx } }
  refine ⟨out, { w.cm with rkIdx := idx }, pos, ?_, ⟨rfl, rfl, rfl⟩, ⟨hat.size, hat.rpIdHash, hrest.symm⟩,
    ⟨{ w with cm := { w.cm with rkIdx := idx } }, _, rfl, hout⟩⟩
  rw [bind_of_ok hscan]
  exact hout

theorem getNextCredential_cons (hw : w.Enumerating 4)
    (hnow : w.inputs.millis w.millisPos - w.cm.timestamp ≤ ctapStatefulTimeoutMs)
    (hat : AtCredentials P hash w (rk :: rest)) :
    ∃ out w', enumerateCredentialsGetNextCredential P w = .ok out w' ∧ Returned 4 (AtCredentials P hash) rest w w' ∧
      Shows w.keys (cborEncodeEnumerateCredential P) (rk.xcrypt P.prims w.keys) 0 out := by
  let w₁ : World := { w with
    cm := { w.cm with timestamp := w.inputs.millis w.millisPos }
    millisPos := w.millisPos + 1 }
  have hat₁ : AtCredentials P hash w₁ (rk :: rest) := ⟨hat.size, hat.rpIdHash, hat.left⟩
  obtain ⟨out, cm, pos, hok, hsame, hcur, hshows⟩ := encodeNextCredential hat₁ 0 .other
  refine ⟨out, { w₁ with cm := cm, rngPos := pos }, ?_, ⟨⟨hsame.valid.trans hw.valid,
    hsame.initCmd.trans hw.initCmd⟩, hsame.timestamp, rfl, ⟨hcur.size, hcur.rpIdHash, hcur.left⟩⟩, hshows⟩
  unfold enumerateCredentialsGetNextCredential
  rw [bind_of_ok (checkState_eq hw hnow), failIf_bind_of_not (by simp), get_bind]
  rw [← hat.rpIdHash] at hok
  exact hok

theorem getNextCredential_nil (hw : w.Enumerating 4)
    (hnow : w.inputs.millis w.millisPos - w.cm.timestamp ≤ ctapStatefulTimeoutMs)
    (hat : AtCredentials P hash w []) :
    ∃ e w', enumerateCredentialsGetNextCredential P w = .error (.status e) w' ∧ w'.cm.valid = false := by
  let w₁ : World := { w with
    cm := { w.cm with timestamp := w.inputs.millis w.millisPos }
    millisPos := w.millisPos + 1 }
  have hnone := scanNext_nil (P := P) (w := w₁) hat.left.symm
  refine ⟨.other, { w₁ with cm := {} }, ?_, rfl⟩
  unfold enumerateCredentialsGetNextCredential
  rw [bind_of_ok (checkState_eq hw hnow), failIf_bind_of_not (by simp), get_bind]
  rw [← hat.rpIdHash] at hnone
  rw [bind_of_ok hnone]
  rfl

theorem getNextCredential_late (hw : w.Enumerating 4)
    (hnow : ctapStatefulTimeoutMs < w.inputs.millis w.millisPos - w.cm.timestamp) :
    ∃ e w', enumerateCredentialsGetNextCredential P w = .error (.status e) w' ∧ w'.millisPos = w.millisPos + 1 ∧
      w'.cm.valid = false := by
  refine ⟨.notAllowed, _, bind_of_ok (checkState_late hw hnow), rfl, rfl⟩

theorem getNextCredential_invalid (h : w.cm.valid = false) :
    enumerateCredentialsGetNextCredential P w = .error (.status .notAllowed) w := by
  unfold enumerateCredentialsGetNextCredential
  rw [bind_of_ok (checkState_invalid h)]
  rfl

/-- The records that `scan_rk` counts for an RP. -/
def credentialsOf (P : Platform) (w : World) (hash : Bytes 32) : List ResidentKey :=
  (w.rkFiles (rkFile (rpIdLookupOf P.prims w.keys hash))).filter (scanMatches (rpIdLookupOf P.prims w.keys hash))

/-- The state in which `count_rk` leaves a new enumeration. -/
def World.counted (w : World) (hash : Bytes 32) : World :=
  { w.begun 4 with cm := { (w.begun 4).cm with rpIdHash := hash } }

theorem enumerateCredentialsBegin_eq {params : SubCommandParams} (hpresent : params.rpIdHashPresent = true) :
    enumerateCredentialsBegin P params w
      = (onlyIf ((credentialsOf P w params.rpIdHash).length = 0) (endEnumeration .noCredentials) >>= fun _ =>
          scanNext P (rpIdLookupOf P.prims w.keys params.rpIdHash) >>= fun
          | none => endEnumeration .noCredentials
          | some rk => cborEncodeEnumerateCredential P rk (credentialsOf P w params.rpIdHash).length)
        (w.counted params.rpIdHash) := by
  have hcount : scanCount (rpIdLookupOf P.prims w.keys params.rpIdHash) (w.counted params.rpIdHash)
      = .ok (credentialsOf P w params.rpIdHash).length (w.counted params.rpIdHash) := by
    unfold credentialsOf
    rw [← List.countP_eq_length_filter]
    rfl
  unfold enumerateCredentialsBegin
  rw [bind_of_ok (initState_eq w 4), failIf_bind_of_not (by simp [hpresent])]
  have hset : (modify fun w : World => { w with cm := { w.cm with
      rpIdHash := params.rpIdHash
      rkIdx := 0 } } : CtapM Unit) (w.begun 4) = .ok () (w.counted params.rpIdHash) := rfl
  rw [bind_of_ok hset, get_bind]
  exact bind_of_ok hcount

theorem enumerateCredentialsBegin_cons {params : SubCommandParams} (hpresent : params.rpIdHashPresent = true)
    (hsize : ∀ n, (w.rkFiles n).length ≤ 200) (hcreds : credentialsOf P w params.rpIdHash = rk :: rest) :
    ∃ out w', enumerateCredentialsBegin P params w = .ok out w' ∧
      Returned 4 (AtCredentials P params.rpIdHash) rest w w' ∧
      Shows w.keys (cborEncodeEnumerateCredential P) (rk.xcrypt P.prims w.keys) (rk :: rest).length out := by
  have hat : AtCredentials P params.rpIdHash (w.counted params.rpIdHash) (rk :: rest) := ⟨hsize, rfl, hcreds.symm⟩
  obtain ⟨out, cm, pos, hok, hsame, hcur, hshows⟩ := encodeNextCredential hat (rk :: rest).length .noCredentials
  refine ⟨out, { w.counted params.rpIdHash with cm := cm, rngPos := pos }, ?_, ⟨⟨hsame.valid, hsame.initCmd⟩,
    hsame.timestamp, rfl, ⟨hcur.size, hcur.rpIdHash, hcur.left⟩⟩, hshows⟩
  rw [enumerateCredentialsBegin_eq hpresent, hcreds]
  exact hok

theorem enumerateCredentialsBegin_nil {params : SubCommandParams} (hpresent : params.rpIdHashPresent = true)
    (hcreds : credentialsOf P w params.rpIdHash = []) :
    ∃ e w', enumerateCredentialsBegin P params w = .error (.status e) w' ∧ w'.cm.valid = false := by
  refine ⟨.noCredentials, { w.counted params.rpIdHash with cm := {} }, ?_, rfl⟩
  rw [enumerateCredentialsBegin_eq hpresent, hcreds]
  rfl

/-- Only one file has records of the RP, and all of them count. -/
theorem credentialsOf_eq (hw : StoreOk P w) (he : w.Enumerable) (hash : Bytes 32) :
    credentialsOf P w hash = w.records.filter fun rk => rk.id.rpIdLookup = rpIdLookupOf P.prims w.keys hash := by
  generalize hL : rpIdLookupOf P.prims w.keys hash = L
  have hmatch : ∀ n, (w.rkFiles n).filter (scanMatches L) = (w.rkFiles n).filter fun rk => rk.id.rpIdLookup = L := by
    intro n
    refine List.filter_congr fun rk hrk => ?_
    have hvalid := he.valid (mem_records.mpr ⟨n, hrk⟩)
    unfold scanMatches
    rw [hvalid, Bool.true_and]
    simp [eq_comm]
  have hother : ∀ n, n ≠ rkFile L → (w.rkFiles n).filter (fun rk => rk.id.rpIdLookup = L) = [] := by
    intro n hn
    rw [List.filter_eq_nil_iff]
    intro rk hrk hlookup
    exact hn (by rw [← hw.placed n rk hrk, of_decide_eq_true hlookup])
  obtain ⟨pre, post, hsplit⟩ := List.append_of_mem (List.mem_finRange (rkFile L))
  have hnodup := List.nodup_finRange 16
  rw [hsplit] at hnodup
  unfold credentialsOf World.records
  rw [hL, hmatch, List.filter_flatMap, hsplit, List.flatMap_append, List.flatMap_cons]
  have hpre : pre.flatMap (fun n => (w.rkFiles n).filter fun rk => rk.id.rpIdLookup = L) = [] := by
    rw [List.flatMap_eq_nil_iff]
    intro n hn
    refine hother n ?_
    rintro rfl
    exact (List.nodup_append.mp hnodup).2.2 _ hn _ (List.mem_cons_self ..) rfl
  have hpost : post.flatMap (fun n => (w.rkFiles n).filter fun rk => rk.id.rpIdLookup = L) = [] := by
    rw [List.flatMap_eq_nil_iff]
    intro n hn
    refine hother n ?_
    rintro rfl
    exact (List.nodup_cons.mp (List.nodup_append.mp hnodup).2.1).1 hn
  rw [hpre, hpost, List.nil_append, List.append_nil]

end Credentials

/-! ## Enumerations as runs -/

/-- What the two enumerations have in common: the call for the next record takes the head of the list
that the cursor stands for, and fails behind its end. -/
structure Enumerator (P : Platform) (cmd : UInt8) (next : CtapM (List UInt8))
    (reply : ResidentKey → Nat → CtapM (List UInt8)) (Cursor : World → List ResidentKey → Prop) : Prop where
  congr : ∀ {w w' : World} {rest : List ResidentKey}, w'.rkFiles = w.rkFiles → w'.keys = w.keys → w'.cm = w.cm →
    Cursor w rest → Cursor w' rest
  touches : Touches [.inputs, .cm] next
  cons : ∀ {w : World} {rk : ResidentKey} {rest : List ResidentKey}, w.Enumerating cmd →
    w.inputs.millis w.millisPos - w.cm.timestamp ≤ ctapStatefulTimeoutMs → Cursor w (rk :: rest) →
    ∃ out w', next w = .ok out w' ∧ Returned cmd Cursor rest w w' ∧ Shows w.keys reply (rk.xcrypt P.prims w.keys) 0 out
  nil : ∀ {w : World}, w.Enumerating cmd → w.inputs.millis w.millisPos - w.cm.timestamp ≤ ctapStatefulTimeoutMs →
    Cursor w [] → ∃ e w', next w = .error (.status e) w' ∧ w'.cm.valid = false
  late : ∀ {w : World}, w.Enumerating cmd → ctapStatefulTimeoutMs < w.inputs.millis w.millisPos - w.cm.timestamp →
    ∃ e w', next w = .error (.status e) w' ∧ w'.millisPos = w.millisPos + 1 ∧ w'.cm.valid = false
  invalid : ∀ {w : World}, w.cm.valid = false → ∃ e w', next w = .error (.status e) w' ∧ w'.cm.valid = false

theorem rpEnumerator (P : Platform) : Enumerator P 2 (enumerateRpsGetNextRp P) cborEncodeEnumerateRp AtRps where
  congr := by
    intro w w' rest hfiles _ hcm hat
    exact ⟨hat.enumerable.congr hfiles, by rw [hfiles]; exact hat.size, by rw [hcm]; exact hat.cursor.congr hfiles⟩
  touches := touches_enumerateRpsGetNextRp
  cons := enumerateRpsGetNextRp_cons
  nil := enumerateRpsGetNextRp_nil
  late := enumerateRpsGetNextRp_late
  invalid h := ⟨_, _, enumerateRpsGetNextRp_invalid h, h⟩

theorem credentialEnumerator (P : Platform) (hash : Bytes 32) :
    Enumerator P 4 (enumerateCredentialsGetNextCredential P) (cborEncodeEnumerateCredential P)
      (AtCredentials P hash) where
  congr := by
    intro w w' rest hfiles hkeys hcm hat
    exact ⟨by rw [hfiles]; exact hat.size, by rw [hcm]; exact hat.rpIdHash, by rw [hfiles, hkeys, hcm]; exact hat.left⟩
  touches := touches_enumerateCredentialsGetNextCredential
  cons := getNextCredential_cons
  nil := getNextCredential_nil
  late := getNextCredential_late
  invalid h := ⟨_, _, getNextCredential_invalid h, h⟩

/-- A request for a sub-command of credentialManagement. -/
def Served.IsSubCommand (r : Served) (n : UInt8) : Prop :=
  commandOf r.cmd = .credentialManagement ∧
    ∃ CM, parseCredentialManagementRequest r.request = .ok CM ∧ CM.subCommand = n

/-- At most 30 seconds lie between two requests, by all their readings of the timer. -/
def Served.SoonAfter (r' r : Served) : Prop :=
  ∀ i < r.after.millisPos, ∀ j < r'.after.millisPos,
    r'.after.inputs.millis j - r.after.inputs.millis i ≤ ctapStatefulTimeoutMs

/-- `r'` is the next request after `r`, without another one or a long pause in between, and asks for a
sub-command. -/
structure Served.FollowedBy (P : Platform) (n : UInt8) (r r' : Served) : Prop where
  valid : r'.Valid P
  before : r'.before = r.after
  command : r'.IsSubCommand n
  soon : r'.SoonAfter r

/-- Between two calls of an enumeration: `rest` has still to be returned. -/
structure Midway (cmd : UInt8) (Cursor : World → List ResidentKey → Prop) (k : SessionKeys) (s : Served)
    (rest : List ResidentKey) : Prop where
  unlocked : clientPinIsLocked s.after = false
  bootUnlocked : clientPinIsBootLocked s.after = false
  keys : s.after.keys = k
  state : (s.after.Enumerating cmd ∧ Cursor s.after rest ∧
      ∃ i < s.after.millisPos, s.after.cm.timestamp = s.after.inputs.millis i) ∨
    (rest = [] ∧ s.after.cm.valid = false)

section Runs

variable {P : Platform} {n cmd : UInt8} {next : CtapM (List UInt8)} {k : SessionKeys} {s r : Served}
  {reply : ResidentKey → Nat → CtapM (List UInt8)} {Cursor : World → List ResidentKey → Prop}
  {rk : ResidentKey} {rest : List ResidentKey}

/-- A request that runs `m`, which changes nothing but the enumeration, from `w₁`. -/
structure Served.Calls (r : Served) (m : CtapM (List UInt8)) (w₁ : World) : Prop where
  touches : Touches [.inputs, .cm] m
  unlocked : clientPinIsLocked w₁ = false
  bootUnlocked : clientPinIsBootLocked w₁ = false
  inputs : w₁.inputs = r.after.inputs
  run : ∃ w₂, r.after = { w₂ with ga := { w₂.ga with lastcmd := nextLastcmd r.cmd r.status } } ∧
    ((r.status = .ok ∧ m w₁ = .ok r.response w₂) ∨ ∃ e, r.status = .error e ∧ m w₁ = .error (.status e) w₂)

/-- It keeps the lock and the keys. -/
theorem Served.Calls.keeps {m : CtapM (List UInt8)} {w₁ : World} (hc : r.Calls m w₁) :
    clientPinIsLocked r.after = false ∧ clientPinIsBootLocked r.after = false ∧ r.after.keys = w₁.keys ∧
      ∃ ga, r.after = { final m w₁ with ga := ga } := by
  obtain ⟨w₂, hafter, hrun⟩ := hc.run
  have hfinal : w₂ = final m w₁ := by
    rcases hrun with ⟨-, h⟩ | ⟨e, -, h⟩
    · exact (final_of_ok h).symm
    · exact (final_of_error h).symm
  have hpin : (final m w₁).pinState = w₁.pinState := hc.touches .pinState (by decide) w₁
  have hboot : (final m w₁).pinBootAttemptsLeft = w₁.pinBootAttemptsLeft := hc.touches .boot (by decide) w₁
  have hkeys : (final m w₁).keys = w₁.keys := hc.touches .keys (by decide) w₁
  have htries : (final m w₁).state.remainingTries = w₁.state.remainingTries := congrArg (fun x => x.2.1) hpin
  subst hfinal
  refine ⟨?_, ?_, ?_, ⟨_, hafter⟩⟩
  · rw [← hc.unlocked, hafter]
    unfold clientPinIsLocked
    rw [← htries]
  · rw [← hc.bootUnlocked, hafter]
    unfold clientPinIsBootLocked
    rw [← hboot]
  · rw [hafter]
    exact hkeys

/-- A call that returned a record. -/
theorem Served.Calls.returned {m : CtapM (List UInt8)} {w₁ w' : World} {out : List UInt8}
    (E : Enumerator P cmd next reply Cursor) (hc : r.Calls m w₁) (hok : m w₁ = .ok out w')
    (hret : Returned cmd Cursor rest w₁ w') :
    r.status = .ok ∧ r.response = out ∧ Midway cmd Cursor w₁.keys r rest := by
  obtain ⟨hlock, hboot, hkeys, ga, hafter⟩ := hc.keeps
  rw [final_of_ok hok] at hafter
  obtain ⟨w₂, -, hrun⟩ := hc.run
  obtain ⟨hs, hresponse⟩ : r.status = .ok ∧ r.response = out := by
    rcases hrun with ⟨hs, h⟩ | ⟨e, -, h⟩
    · rw [hok] at h
      obtain ⟨rfl, -⟩ : out = r.response ∧ w' = w₂ := by simpa using h
      exact ⟨hs, rfl⟩
    · rw [hok] at h
      cases h
  refine ⟨hs, hresponse, hlock, hboot, hkeys, .inl ⟨?_, ?_, w₁.millisPos, ?_, ?_⟩⟩
  · rw [hafter]
    exact ⟨hret.enumerating.valid, hret.enumerating.initCmd⟩
  · rw [hafter]
    exact E.congr (w := w') rfl rfl rfl hret.cursor
  · rw [hafter]
    show w₁.millisPos < w'.millisPos
    rw [hret.millisPos]
    omega
  · have hstamp : r.after.cm.timestamp = w'.cm.timestamp := by rw [hafter]
    rw [hstamp, hret.timestamp, hc.inputs]

/-- A call that failed. -/
theorem Served.Calls.failed {m : CtapM (List UInt8)} {w₁ w' : World} {e : CtapError} (hc : r.Calls m w₁)
    (herr : m w₁ = .error (.status e) w') (hv : w'.cm.valid = false) :
    r.status ≠ .ok ∧ Midway cmd Cursor w₁.keys r [] := by
  obtain ⟨hlock, hboot, hkeys, ga, hafter⟩ := hc.keeps
  rw [final_of_error herr] at hafter
  obtain ⟨w₂, -, hrun⟩ := hc.run
  refine ⟨?_, hlock, hboot, hkeys, .inr ⟨rfl, ?_⟩⟩
  · rcases hrun with ⟨-, h⟩ | ⟨e, hs, -⟩
    · rw [herr] at h
      cases h
    · rw [hs]
      simp
  · rw [hafter]
    exact hv

/-- The request for the next record needs no pinUvAuthParam. -/
theorem Served.FollowedBy.calls (hc : s.FollowedBy P n r) (hn : n = 3 ∨ n = 5) (htouch : Touches [.inputs, .cm] next)
    (hnext : ∀ CM : CredMgmt, CM.subCommand = n → credMgmtCommand P CM = next)
    (hlock : clientPinIsLocked s.after = false) (hboot : clientPinIsBootLocked s.after = false) :
    r.Calls next (s.after.withInputs r.after.inputs) := by
  obtain ⟨hcmd, CM, hparse, hsub⟩ := hc.command
  obtain ⟨w₁, hafter, hd⟩ := hc.valid.run
  refine ⟨htouch, hlock, hboot, rfl, w₁, hafter, ?_⟩
  rw [hc.before, hcmd] at hd
  set start := s.after.withInputs r.after.inputs with hstart
  have hlock' : ¬ (Command.checksLock .credentialManagement = true ∧ clientPinIsLocked start = true) :=
    fun h => absurd h.2 (by rw [show clientPinIsLocked start = false from hlock]; decide)
  have hboot' : ¬ (Command.checksLock .credentialManagement = true ∧ clientPinIsBootLocked start = true) :=
    fun h => absurd h.2 (by rw [show clientPinIsBootLocked start = false from hboot]; decide)
  have hpin : verifyPinAuthForCredentialManagement P CM start = .ok () start := by
    unfold verifyPinAuthForCredentialManagement
    rw [if_pos (by rw [hsub]; exact hn)]
    rfl
  have hdisp : dispatch P .credentialManagement r.request start = next start := by
    unfold dispatch
    rw [get_bind, failIf_bind_of_not hlock', get_bind, failIf_bind_of_not hboot']
    show ctapCredentialManagement P r.request start = _
    unfold ctapCredentialManagement
    rw [bind_of_ok (ctapCheck_eq_ok.mpr ⟨hparse, rfl⟩), bind_of_ok hpin, hnext CM hsub]
  rwa [hdisp] at hd

/-- One call for the next record. -/
theorem Enumerator.step (E : Enumerator P cmd next reply Cursor) (hc : s.FollowedBy P n r) (hn : n = 3 ∨ n = 5)
    (hnext : ∀ CM : CredMgmt, CM.subCommand = n → credMgmtCommand P CM = next) (hm : Midway cmd Cursor k s rest) :
    (∀ rk rest', rest = rk :: rest' → (r.status = .ok ∧ Shows k reply (rk.xcrypt P.prims k) 0 r.response) ∧
        Midway cmd Cursor k r rest') ∧
      (rest = [] → r.status ≠ .ok ∧ Midway cmd Cursor k r []) := by
  have hcalls := hc.calls hn E.touches hnext hm.unlocked hm.bootUnlocked
  rw [← hm.keys]
  set start := s.after.withInputs r.after.inputs with hstart
  rcases hm.state with ⟨henum, hcur, i, hi, hstamp⟩ | ⟨hnil, hinvalid⟩
  · have henum' : start.Enumerating cmd := ⟨henum.valid, henum.initCmd⟩
    have hcur' : Cursor start rest := E.congr (w := s.after) rfl rfl rfl hcur
    by_cases hnow : start.inputs.millis start.millisPos - start.cm.timestamp ≤ ctapStatefulTimeoutMs
    · refine ⟨?_, ?_⟩
      · rintro rk rest' rfl
        obtain ⟨out, w', hok, hret, hshows⟩ := E.cons henum' hnow hcur'
        obtain ⟨hs, hresponse, hmid⟩ := hcalls.returned E hok hret
        exact ⟨⟨hs, hresponse ▸ hshows⟩, hmid⟩
      · rintro rfl
        obtain ⟨e, w', herr, hv⟩ := E.nil henum' hnow hcur'
        exact hcalls.failed herr hv
    · -- the check takes a reading also when it fails
      obtain ⟨e, w', herr, hpos, -⟩ := E.late henum' (UInt32.not_le.mp hnow)
      obtain ⟨-, -, -, ga, hafter⟩ := hcalls.keeps
      rw [final_of_error herr] at hafter
      have hread : 0 < r.after.millisPos := by
        rw [hafter]
        show 0 < w'.millisPos
        omega
      refine absurd (hc.soon i hi 0 hread) ?_
      rw [← hstamp]
      exact hnow
  · obtain ⟨e, w', herr, hv⟩ := E.invalid (w := start) hinvalid
    refine ⟨?_, fun _ => hcalls.failed herr hv⟩
    rintro rk rest' rfl
    cases hnil

/-- All calls for the next record. -/
theorem Enumerator.run (E : Enumerator P cmd next reply Cursor) (hn : n = 3 ∨ n = 5)
    (hnext : ∀ CM : CredMgmt, CM.subCommand = n → credMgmtCommand P CM = next) {rs : List Served}
    (hchain : List.IsChain (Served.FollowedBy P n) (s :: rs)) (hm : Midway cmd Cursor k s rest) (i : Nat)
    (hr : rs[i]? = some r) :
    match rest[i]? with
    | some rk => r.status = .ok ∧ Shows k reply (rk.xcrypt P.prims k) 0 r.response
    | none => r.status ≠ .ok := by
  induction rs generalizing s rest i with
  | nil => cases hr
  | cons r₁ rs ih =>
    rw [List.isChain_cons_cons] at hchain
    obtain ⟨hcons, hnil⟩ := E.step hchain.1 hn hnext hm
    cases rest with
    | nil =>
      obtain ⟨hfail, hm₁⟩ := hnil rfl
      cases i with
      | zero =>
        obtain rfl : r₁ = r := by simpa using hr
        exact hfail
      | succ i => exact ih hchain.2 hm₁ i (by simpa using hr)
    | cons rk rest =>
      obtain ⟨hshow, hm₁⟩ := hcons rk rest rfl
      cases i with
      | zero =>
        obtain rfl : r₁ = r := by simpa using hr
        exact hshow
      | succ i => exact ih hchain.2 hm₁ i (by simpa using hr)

/-- The first call of an enumeration of the list `all`. -/
structure Begins (P : Platform) (cmd : UInt8) (CM : CredMgmt) (reply : ResidentKey → Nat → CtapM (List UInt8))
    (Cursor : World → List ResidentKey → Prop) (all : List ResidentKey) (w : World) : Prop where
  touches : Touches [.inputs, .cm] (credMgmtCommand P CM)
  cons : ∀ {w₁ : World} {rk : ResidentKey} {rest : List ResidentKey}, w₁.rkFiles = w.rkFiles → w₁.keys = w.keys →
    all = rk :: rest → ∃ out w', credMgmtCommand P CM w₁ = .ok out w' ∧ Returned cmd Cursor rest w₁ w' ∧
      Shows w.keys reply (rk.xcrypt P.prims w.keys) all.length out
  nil : ∀ {w₁ : World}, w₁.rkFiles = w.rkFiles → w₁.keys = w.keys → all = [] →
    ∃ e w', credMgmtCommand P CM w₁ = .error (.status e) w' ∧ w'.cm.valid = false

/-- The first call counts the list and returns its head. -/
theorem Begins.run {CM : CredMgmt} {b : Served} {all : List ResidentKey}
    (E : Enumerator P cmd next reply Cursor) (hb : Begins P cmd CM reply Cursor all b.before)
    (ha : b.Accepted P CM) (hv : b.Valid P) :
    (∀ rk rest, all = rk :: rest →
        (b.status = .ok ∧ Shows b.before.keys reply (rk.xcrypt P.prims b.before.keys) all.length b.response) ∧
        Midway cmd Cursor b.before.keys b rest) ∧
      (all = [] → b.status ≠ .ok ∧ Midway cmd Cursor b.before.keys b []) := by
  obtain ⟨w₁, w₂, hver, hafter, hrun⟩ := ha.command_run hv
  obtain ⟨hfiles, hkeys, -, hinputs, hpin, hboot⟩ := verifyPinAuth_keeps hver
  have htries : w₁.state.remainingTries = b.before.state.remainingTries := congrArg (fun x => x.2.1) hpin
  have hcalls : b.Calls (credMgmtCommand P CM) w₁ := by
    refine ⟨hb.touches, ?_, ?_, hinputs, w₂, hafter, hrun⟩
    · rw [← ha.unlocked]
      unfold clientPinIsLocked
      rw [htries]
    · rw [← ha.bootUnlocked]
      unfold clientPinIsBootLocked
      rw [hboot]
  rw [← hkeys]
  refine ⟨fun rk rest hall => ?_, fun hall => ?_⟩
  · obtain ⟨out, w', hok, hret, hshows⟩ := hb.cons hfiles hkeys hall
    obtain ⟨hs, hresponse, hmid⟩ := hcalls.returned E hok hret
    rw [← hkeys] at hshows
    exact ⟨⟨hs, hresponse ▸ hshows⟩, hmid⟩
  · obtain ⟨e, w', herr, hv⟩ := hb.nil hfiles hkeys hall
    exact hcalls.failed herr hv

/-- The requests of an enumeration: an authorised one that begins it, then nothing but requests for the
next record, without a long pause. -/
structure Enumeration (P : Platform) (w : World) (begins : CredMgmt → Prop) (n : UInt8) (b : Served)
    (rs : List Served) : Prop where
  valid : b.Valid P
  before : b.before = w
  accepted : ∃ CM, b.Accepted P CM ∧ begins CM
  continues : List.IsChain (Served.FollowedBy P n) (b :: rs)

/-- The requests return the records of a list in turn, with their number in the first response, and
then fail. -/
def ReturnInTurn (k : SessionKeys) (reply : ResidentKey → Nat → CtapM (List UInt8)) (rks : List ResidentKey)
    (rs : List Served) : Prop :=
  ∀ i r, rs[i]? = some r → match rks[i]? with
    | some rk => r.status = .ok ∧ Shows k reply rk (if i = 0 then rks.length else 0) r.response
    | none => r.status ≠ .ok

/-- A whole enumeration. -/
theorem Enumerator.returnInTurn (E : Enumerator P cmd next reply Cursor) (hn : n = 3 ∨ n = 5)
    (hnext : ∀ CM : CredMgmt, CM.subCommand = n → credMgmtCommand P CM = next) {w : World} {begins : CredMgmt → Prop}
    {b : Served} {rs : List Served} (he : Enumeration P w begins n b rs) {all : List ResidentKey}
    (hall : ∀ CM, begins CM → Begins P cmd CM reply Cursor all w) :
    ReturnInTurn w.keys reply (all.map (·.xcrypt P.prims w.keys)) (b :: rs) := by
  obtain ⟨CM, ha, hbegins⟩ := he.accepted
  obtain rfl := he.before
  obtain ⟨hcons, hnil⟩ := (hall CM hbegins).run E ha he.valid
  intro i r hr
  cases all with
  | nil =>
    obtain ⟨hfail, hmid⟩ := hnil rfl
    cases i with
    | zero =>
      obtain rfl : b = r := by simpa using hr
      exact hfail
    | succ i =>
      have h := E.run hn hnext he.continues hmid i (by simpa using hr)
      simpa using h
  | cons rk rest =>
    obtain ⟨hshow, hmid⟩ := hcons rk rest rfl
    cases i with
    | zero =>
      obtain rfl : b = r := by simpa using hr
      simpa using hshow
    | succ i =>
      have h := E.run hn hnext he.continues hmid i (by simpa using hr)
      rw [List.map_cons, List.getElem?_cons_succ, List.getElem?_map]
      cases hrest : rest[i]? with
      | none =>
        rw [hrest] at h
        exact h
      | some rk' =>
        rw [hrest] at h
        exact h

end Runs

/-! ## Every RP and every credential once -/

section Store

variable {P : Platform} {w : World} {CM : CredMgmt}

theorem credMgmtCommand_rpsBegin (h : CM.subCommand = 2) : credMgmtCommand P CM = enumerateRpsBegin P := by
  unfold credMgmtCommand
  rw [h]
  rfl

theorem credMgmtCommand_rpsNext (h : CM.subCommand = 3) : credMgmtCommand P CM = enumerateRpsGetNextRp P := by
  unfold credMgmtCommand
  rw [h]
  rfl

theorem rpsFrom_congr {w' : World} (h : w'.rkFiles = w.rkFiles) : rpsFrom w' 0 = rpsFrom w 0 := by
  rw [rpsFrom_zero, rpsFrom_zero, h]

theorem begins_rps (he : w.Enumerable) (hsize : ∀ n, (w.rkFiles n).length ≤ 200) (hsub : CM.subCommand = 2) :
    Begins P 2 CM cborEncodeEnumerateRp AtRps (rpsFrom w 0) w where
  touches := by
    rw [credMgmtCommand_rpsBegin hsub]
    exact touches_enumerateRpsBegin
  cons := by
    intro w₁ rk rest hfiles hkeys hall
    rw [credMgmtCommand_rpsBegin hsub, ← hkeys, hall]
    exact enumerateRpsBegin_cons (he.congr hfiles) (by rw [hfiles]; exact hsize) ((rpsFrom_congr hfiles).trans hall)
  nil := by
    intro w₁ hfiles _ hall
    rw [credMgmtCommand_rpsBegin hsub]
    exact enumerateRpsBegin_nil (he.congr hfiles) (by rw [hfiles]; exact hsize) ((rpsFrom_congr hfiles).trans hall)

theorem begins_credentials (hsize : ∀ n, (w.rkFiles n).length ≤ 200) (hsub : CM.subCommand = 4)
    (hpresent : CM.params.rpIdHashPresent = true) :
    Begins P 4 CM (cborEncodeEnumerateCredential P) (AtCredentials P CM.params.rpIdHash)
      (credentialsOf P w CM.params.rpIdHash) w where
  touches := by
    rw [credMgmtCommand_begin hsub]
    exact touches_enumerateCredentialsBegin
  cons := by
    intro w₁ rk rest hfiles hkeys hall
    have hall₁ : credentialsOf P w₁ CM.params.rpIdHash = rk :: rest := by
      rw [← hall]
      unfold credentialsOf
      rw [hfiles, hkeys]
    rw [credMgmtCommand_begin hsub, ← hkeys, hall]
    exact enumerateCredentialsBegin_cons hpresent (by rw [hfiles]; exact hsize) hall₁
  nil := by
    intro w₁ hfiles hkeys hall
    rw [credMgmtCommand_begin hsub]
    refine enumerateCredentialsBegin_nil hpresent ?_
    rw [← hall]
    unfold credentialsOf
    rw [hfiles, hkeys]

/-- The RPs of a file, by the lookup MACs of its records. -/
theorem World.Enumerable.rps_of_file (he : w.Enumerable) (hsize : ∀ n, (w.rkFiles n).length ≤ 200) (n : Fin 16) :
    (rpsOf (w.rkFiles n)).Sublist (w.rkFiles n) ∧ ((rpsOf (w.rkFiles n)).map (·.id.rpIdLookup)).Nodup ∧
      ∀ rk ∈ w.rkFiles n, ∃ rk' ∈ rpsOf (w.rkFiles n), rk'.id.rpIdLookup = rk.id.rpIdLookup := by
  have heq := he.rpsOf_eq hsize n.val
  rw [rkFileNo_val] at heq
  have hsub : (firstsBy compareKey (w.rkFiles n) []).Sublist (w.rkFiles n) := firstsBy_sublist
  rw [heq]
  refine ⟨hsub, ?_, fun rk hrk => ?_⟩
  · have hkeys : ((firstsBy compareKey (w.rkFiles n) []).map compareKey).Nodup := nodup_map_firstsBy
    have hmap : (firstsBy compareKey (w.rkFiles n) []).map compareKey
        = ((firstsBy compareKey (w.rkFiles n) []).map (·.id.rpIdLookup)).map fun l => l.toList.take 8 := by
      rw [List.map_map]
      rfl
    rw [hmap] at hkeys
    exact hkeys.of_map _
  · have hmem : compareKey rk ∈ (firstsBy compareKey (w.rkFiles n) []).map compareKey :=
      mem_map_firstsBy.mpr ⟨List.mem_map_of_mem hrk, by simp⟩
    obtain ⟨rk', hrk', hkey⟩ := List.mem_map.mp hmem
    exact ⟨rk', hrk', he.differ rk' (mem_records.mpr ⟨n, hsub.subset hrk'⟩) rk (mem_records.mpr ⟨n, hrk⟩) hkey⟩

theorem mem_rpsFrom_zero {rk : ResidentKey} : rk ∈ rpsFrom w 0 ↔ ∃ n, rk ∈ rpsOf (w.rkFiles n) := by
  rw [rpsFrom_zero]
  simp

/-- The RPs of the store: one record for each. -/
theorem World.Enumerable.rps (he : w.Enumerable) (hw : StoreOk P w) :
    ((rpsFrom w 0).map (·.id.rpIdLookup)).Nodup ∧ (∀ rk ∈ rpsFrom w 0, rk ∈ w.records) ∧
      ∀ rk ∈ w.records, ∃ rk' ∈ rpsFrom w 0, rk'.id.rpIdLookup = rk.id.rpIdLookup := by
  have hsize : ∀ n, (w.rkFiles n).length ≤ 200 := length_file_le hw
  refine ⟨?_, ?_, ?_⟩
  · rw [rpsFrom_zero, List.map_flatMap, List.nodup_flatMap]
    refine ⟨fun n _ => (he.rps_of_file hsize n).2.1, ?_⟩
    refine (List.nodup_finRange 16).imp ?_
    intro m n hmn x hx hy
    obtain ⟨r, hr, rfl⟩ := List.mem_map.mp hx
    obtain ⟨r', hr', hlookup⟩ := List.mem_map.mp hy
    have hm := hw.placed m r ((he.rps_of_file hsize m).1.subset hr)
    have hn := hw.placed n r' ((he.rps_of_file hsize n).1.subset hr')
    exact hmn (by rw [← hm, ← hn, hlookup])
  · intro rk hrk
    obtain ⟨n, hn⟩ := mem_rpsFrom_zero.mp hrk
    exact mem_records.mpr ⟨n, (he.rps_of_file hsize n).1.subset hn⟩
  · intro rk hrk
    obtain ⟨n, hn⟩ := mem_records.mp hrk
    obtain ⟨rk', hrk', hlookup⟩ := (he.rps_of_file hsize n).2.2 rk hn
    exact ⟨rk', mem_rpsFrom_zero.mpr ⟨n, hrk'⟩, hlookup⟩

/-- The enumeration of RPs returns one stored record for each RP, with their number in the first
response, and then fails; the enumeration of the credentials of an RP returns all of them in file order
and then fails. -/
theorem enumerations_return_each_once (hreach : Reachable P w) (he : w.Enumerable) :
    (∃ rps : List ResidentKey, (rps.map (·.id.rpIdLookup)).Nodup ∧ (∀ rk ∈ rps, rk ∈ w.records) ∧
      (∀ rk ∈ w.records, ∃ rk' ∈ rps, rk'.id.rpIdLookup = rk.id.rpIdLookup) ∧
      ∀ b rs, Enumeration P w (fun CM => CM.subCommand = 2) 3 b rs →
        ReturnInTurn w.keys cborEncodeEnumerateRp (rps.map (·.xcrypt P.prims w.keys)) (b :: rs)) ∧
    ∀ hash b rs,
      Enumeration P w (fun CM => CM.subCommand = 4 ∧ CM.params.rpIdHashPresent = true ∧ CM.params.rpIdHash = hash)
        5 b rs →
      ReturnInTurn w.keys (cborEncodeEnumerateCredential P)
        ((w.records.filter fun rk => rk.id.rpIdLookup = rpIdLookupOf P.prims w.keys hash).map
          (·.xcrypt P.prims w.keys)) (b :: rs) := by
  obtain ⟨h, hr⟩ := hreach
  have hw := hr.storeOk
  have hsize : ∀ n, (w.rkFiles n).length ≤ 200 := length_file_le hw
  obtain ⟨hnodup, hsub, hall⟩ := he.rps hw
  refine ⟨⟨rpsFrom w 0, hnodup, hsub, hall, fun b rs hen => ?_⟩, fun hash b rs hen => ?_⟩
  · exact (rpEnumerator P).returnInTurn (.inl rfl) (fun _ => credMgmtCommand_rpsNext) hen
      fun CM hsub => begins_rps he hsize hsub
  · rw [← credentialsOf_eq hw he]
    refine (credentialEnumerator P hash).returnInTurn (.inr rfl) (fun _ => credMgmtCommand_next) hen ?_
    rintro CM ⟨hsub, hpresent, rfl⟩
    exact begins_credentials hsize hsub hpresent

end Store

/-! ### Two RPs -/

/-- Credentials for two RPs are stored, and a token with the permission cm is issued. -/
def twoRps : Option World := (serveAll simPlatform simStart
  [touched 1 (encMap (makeCredentialMembers "a" 1)), touched 1 (encMap (makeCredentialMembers "b" 1)),
    touched 6 (setPinRequest "1234"), touched 6 (getTokenRequest "1234" 4 "")]).map Prod.fst

theorem twoRps_reachable {w : World} (h : twoRps = some w) : Reachable simPlatform w := by
  obtain ⟨⟨w₁, rs⟩, hrs, rfl⟩ := Option.map_eq_some_iff.mp h
  exact ⟨_, serveAll_run run_simStart hrs⟩

instance (w : World) : Decidable w.Enumerable :=
  decidable_of_iff ((∀ rk ∈ w.records, rk.id.count ≠ 0 ∧ rk.id.count ≠ 0xffffffff) ∧
      (∀ n, ((w.rkFiles n).map (·.id.rpIdLookup)).dedup.length ≤ 50) ∧
      ∀ rk ∈ w.records, ∀ rk' ∈ w.records, rk.id.rpIdLookup.toList.take 8 = rk'.id.rpIdLookup.toList.take 8 →
        rk.id.rpIdLookup = rk'.id.rpIdLookup)
    ⟨fun h => ⟨h.1, h.2.1, h.2.2⟩, fun h => ⟨h.counts, h.few, h.differ⟩⟩

/-- Begin and next of the enumeration of RPs. -/
def rpsBeginMessage : Message := touched 0x0a (encMap [([1], [2]), ([3], [1]), ([4], simAuth simToken [2])])
def rpsNextMessage : Message := touched 0x0a (encMap [([1], [3])])

/-- Whether the first request of an enumeration of RPs is accepted. -/
def Served.beginsRps (P : Platform) (r : Served) : Bool :=
  match parseCredentialManagementRequest r.request with
  | .error _ => false
  | .ok CM => commandOf r.cmd = .credentialManagement && !clientPinIsLocked r.before &&
      !clientPinIsBootLocked r.before && CM.subCommand = 2 &&
      match verifyPinAuthForCredentialManagement P CM (r.before.withInputs r.after.inputs) with
      | .ok _ _ => true
      | .error _ _ => false

theorem Served.accepted_of_beginsRps {P : Platform} {r : Served} (h : r.beginsRps P = true) :
    ∃ CM, r.Accepted P CM ∧ CM.subCommand = 2 := by
  unfold Served.beginsRps at h
  split at h
  · cases h
  · rename_i CM hparse
    simp only [Bool.and_eq_true, decide_eq_true_eq, Bool.not_eq_true'] at h
    obtain ⟨⟨⟨⟨hc, hlock⟩, hboot⟩, hsub⟩, hver⟩ := h
    refine ⟨CM, ⟨hc, hlock, hboot, hparse, by rw [hsub]; decide, ?_⟩, hsub⟩
    split at hver
    · rename_i w₁ hok
      exact ⟨w₁, hok⟩
    · cases hver

theorem serve_fields {P : Platform} {w : World} {m : Message} {r : Served} (h : serve P w m = some r) :
    r.cmd = m.cmd ∧ r.request = m.request ∧ r.after.inputs = m.inputs := by
  unfold serve at h
  split at h
  · rename_i status response after hr
    obtain rfl := Option.some.inj h
    exact ⟨rfl, rfl, ctapRequest_inputs hr⟩
  · cases h

theorem rpsNextMessage_continues {s r : Served} (hs : ∀ i, s.after.inputs.millis i = 5)
    (h : serve simPlatform s.after rpsNextMessage = some r) :
    s.FollowedBy simPlatform 3 r ∧ ∀ i, r.after.inputs.millis i = 5 := by
  obtain ⟨hcmd, hrequest, hinputs⟩ := serve_fields h
  have hparse : (parseCredentialManagementRequest rpsNextMessage.request).toOption.map (·.subCommand) = some 3 := by
    decide +kernel
  have hmillis : ∀ i, r.after.inputs.millis i = 5 := fun i => by rw [hinputs]; rfl
  refine ⟨⟨(serve_valid h).1, (serve_valid h).2, ⟨by rw [hcmd]; rfl, ?_⟩, fun i _ j _ => ?_⟩, hmillis⟩
  · rw [hrequest]
    cases hx : parseCredentialManagementRequest rpsNextMessage.request with
    | error e =>
      rw [hx] at hparse
      cases hparse
    | ok CM =>
      rw [hx] at hparse
      exact ⟨CM, rfl, Option.some.inj hparse⟩
  · rw [hs, hmillis]
    decide

/-- Three requests: both RPs are returned, then the enumeration fails. -/
theorem enumerations_return_each_once_two_rps :
    ∃ w b r₁ r₂, Reachable simPlatform w ∧ Enumeration simPlatform w (fun CM => CM.subCommand = 2) 3 b [r₁, r₂] ∧
      w.records.length = 2 ∧ ∃ rps : List ResidentKey, (rps.map (·.id.rpIdLookup)).Nodup ∧
        ReturnInTurn w.keys cborEncodeEnumerateRp (rps.map (·.xcrypt simPlatform.prims w.keys)) [b, r₁, r₂] := by
  have heval : (twoRps.bind fun w => (serve simPlatform w rpsBeginMessage).bind fun b =>
      (serve simPlatform b.after rpsNextMessage).bind fun r₁ => (serve simPlatform r₁.after rpsNextMessage).map
        fun r₂ => (b.beginsRps simPlatform, w.records.length, decide w.Enumerable)) = some (true, 2, true) := by
    decide +kernel
  obtain ⟨w, hw, heval⟩ := Option.bind_eq_some_iff.mp heval
  obtain ⟨b, hb, heval⟩ := Option.bind_eq_some_iff.mp heval
  obtain ⟨r₁, hr₁, heval⟩ := Option.bind_eq_some_iff.mp heval
  obtain ⟨r₂, hr₂, heval⟩ := Option.map_eq_some_iff.mp heval
  simp only [Prod.mk.injEq, decide_eq_true_eq] at heval
  obtain ⟨hbegins, hlen, he⟩ := heval
  have hmillis : ∀ i, b.after.inputs.millis i = 5 := fun i => by rw [(serve_fields hb).2.2]; rfl
  obtain ⟨h₁, hmillis₁⟩ := rpsNextMessage_continues hmillis hr₁
  obtain ⟨h₂, -⟩ := rpsNextMessage_continues hmillis₁ hr₂
  have hen : Enumeration simPlatform w (fun CM => CM.subCommand = 2) 3 b [r₁, r₂] :=
    ⟨(serve_valid hb).1, (serve_valid hb).2, Served.accepted_of_beginsRps hbegins, by simp [h₁, h₂]⟩
  have hreach := twoRps_reachable hw
  obtain ⟨⟨rps, hnodup, -, -, hreturn⟩, -⟩ := enumerations_return_each_once hreach he
  exact ⟨w, b, r₁, r₂, hreach, hen, hlen, rps, hnodup, hreturn b _ hen⟩

end TkeyFido2
