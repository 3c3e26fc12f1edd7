import TkeyFido2.Ctap.Enumeration
import TkeyFido2.Ctap.SigningKeys
import TkeyFido2.Ctap.UserUpdates
import TkeyFido2.Lib.Memory

/-!
# RP IDs in records

`truncate_rpid` cuts an RP ID to the 32 bytes that a record has for it: the protocol in front is kept where
an ellipsis fits behind it, and the rest is taken from the end.  What credential management reports as the
RP ID of a record are these bytes.
-/

namespace TkeyFido2

open Cbor Encoder Memory Prog

/-! ## Truncation -/

/-- `truncate_rpid`: the memory at `stored_rpid`, and `*stored_len`. -/
def truncateRpidInto (stored : Nat → UInt8) (rpid : List UInt8) : (Nat → UInt8) × UInt8 :=
  if rpid.length ≤ 32 then (memWrite stored 0 rpid, UInt8.ofNat rpid.length)
  else
    let (stored, used) :=
      if 0x3a ∈ rpid then
        let protocolLen := rpid.idxOf 0x3a + 1
        let toCopy := if protocolLen ≤ 32 then protocolLen else 32
        (memWrite stored 0 (rpid.take toCopy), toCopy)
      else (stored, 0)
    if 32 - used < 3 then (stored, UInt8.ofNat used)
    else
      let stored := memWrite stored used ellipsis
      let used := used + 3
      let toCopy := 32 - used
      (memWrite stored used ((rpid.drop (rpid.length - toCopy)).take toCopy), 32)

/-- The RP ID up to its first colon, nothing where it has none. -/
def protocolOf (rpid : List UInt8) : List UInt8 :=
  if 0x3a ∈ rpid then rpid.takeWhile (· ≠ 0x3a) ++ [0x3a] else []

section Truncation

variable {rpid : List UInt8}

theorem take_idxOf {x : UInt8} {l : List UInt8} (h : x ∈ l) :
    l.take (l.idxOf x + 1) = l.takeWhile (· ≠ x) ++ [x] := by
  induction l with
  | nil => simp at h
  | cons y l ih =>
    by_cases hy : y = x
    · subst hy
      simp
    · have hmem : x ∈ l := (List.mem_cons.mp h).resolve_left fun he => hy he.symm
      rw [List.idxOf_cons_ne _ hy, List.take_succ_cons, ih hmem, List.takeWhile_cons_of_pos (by simpa using hy),
        List.cons_append]

theorem protocolOf_eq : protocolOf rpid = if 0x3a ∈ rpid then rpid.take (rpid.idxOf 0x3a + 1) else [] := by
  unfold protocolOf
  split_ifs with h
  · exact (take_idxOf h).symm
  · rfl

theorem length_protocolOf_of_mem (h : 0x3a ∈ rpid) : (protocolOf rpid).length = rpid.idxOf 0x3a + 1 := by
  have hlt : rpid.idxOf 0x3a < rpid.length := List.idxOf_lt_length_of_mem h
  rw [protocolOf_eq, if_pos h, List.length_take]
  omega

/-- The protocol is a prefix. -/
theorem protocolOf_eq_take : protocolOf rpid = rpid.take (protocolOf rpid).length := by
  by_cases h : 0x3a ∈ rpid
  · rw [length_protocolOf_of_mem h, protocolOf_eq, if_pos h]
  · rw [protocolOf_eq, if_neg h]
    rfl

/-- The protocol as far as it is copied. -/
theorem protocol_copied : (if 0x3a ∈ rpid then (rpid.take (rpid.idxOf 0x3a + 1)).take 32 else []) =
    (protocolOf rpid).take 32 := by
  rw [protocolOf_eq]
  split_ifs
  · rfl
  · rfl

theorem take_protocolOf : (protocolOf rpid).take 32 = rpid.take (min (protocolOf rpid).length 32) := by
  conv_lhs => rw [protocolOf_eq_take]
  rw [List.take_take, Nat.min_comm]

theorem truncateRpid_of_le (h : rpid.length ≤ 32) : truncateRpid rpid = rpid := if_pos h

theorem truncateRpid_of_protocol_le (h : 32 < rpid.length) (hp : (protocolOf rpid).length ≤ 29) :
    truncateRpid rpid = protocolOf rpid ++ ellipsis ++ rpid.drop (rpid.length - (29 - (protocolOf rpid).length)) := by
  have hellipsis : ellipsis.length = 3 := rfl
  unfold truncateRpid
  rw [if_neg (by omega)]
  dsimp only
  rw [protocol_copied, List.take_of_length_le (by omega), if_neg (by omega), List.length_append, hellipsis,
    show 32 - ((protocolOf rpid).length + 3) = 29 - (protocolOf rpid).length by omega]

/-- Protocol, ellipsis and the last 23 bytes. -/
example : truncateRpid (ascii "https://login.accounts.example.org/fido") =
    ascii "https:" ++ ellipsis ++ ascii "counts.example.org/fido" := by decide +kernel

theorem truncateRpid_of_lt_protocol (h : 32 < rpid.length) (hp : 29 < (protocolOf rpid).length) :
    truncateRpid rpid = rpid.take (min (protocolOf rpid).length 32) := by
  unfold truncateRpid
  rw [if_neg (by omega)]
  dsimp only
  rw [protocol_copied, if_pos (by rw [List.length_take]; omega), take_protocolOf]

/-- Behind the protocol and the ellipsis there is room for that many bytes, and the RP ID has them. -/
theorem length_truncateRpid_of_protocol_le (h : 32 < rpid.length) (hp : (protocolOf rpid).length ≤ 29) :
    (truncateRpid rpid).length = 32 := by
  have hellipsis : ellipsis.length = 3 := rfl
  rw [truncateRpid_of_protocol_le h hp, List.length_append, List.length_append, List.length_drop, hellipsis]
  omega

theorem length_truncateRpid_le : (truncateRpid rpid).length ≤ 32 := by
  rcases Nat.lt_or_ge 32 rpid.length with h | h
  · rcases Nat.lt_or_ge 29 (protocolOf rpid).length with hp | hp
    · rw [truncateRpid_of_lt_protocol h hp, List.length_take]
      omega
    · rw [length_truncateRpid_of_protocol_le h hp]
  · rwa [truncateRpid_of_le h]

/-- Memory and length after `truncate_rpid`. -/
theorem truncateRpidInto_eq (stored : Nat → UInt8) : truncateRpidInto stored rpid =
    (memWrite stored 0 (truncateRpid rpid), UInt8.ofNat (truncateRpid rpid).length) := by
  unfold truncateRpidInto
  rcases Nat.lt_or_ge 32 rpid.length with h | h
  · have hused : (if 0x3a ∈ rpid then
          (memWrite stored 0 (rpid.take (if rpid.idxOf 0x3a + 1 ≤ 32 then rpid.idxOf 0x3a + 1 else 32)),
            if rpid.idxOf 0x3a + 1 ≤ 32 then rpid.idxOf 0x3a + 1 else 32)
        else (stored, 0)) =
        (memWrite stored 0 ((protocolOf rpid).take 32), ((protocolOf rpid).take 32).length) := by
      by_cases hmem : 0x3a ∈ rpid
      · have hlen := length_protocolOf_of_mem hmem
        have hmin : (if rpid.idxOf 0x3a + 1 ≤ 32 then rpid.idxOf 0x3a + 1 else 32) =
            min (protocolOf rpid).length 32 := by
          rw [hlen]
          split_ifs <;> omega
        rw [if_pos hmem, hmin, ← take_protocolOf, List.length_take, Nat.min_comm]
      · rw [if_neg hmem, protocolOf_eq, if_neg hmem, List.take_nil, memWrite_nil]
        rfl
    rw [if_neg (by omega)]
    dsimp only
    rw [hused]
    dsimp only
    rcases Nat.lt_or_ge 29 (protocolOf rpid).length with hp | hp
    · rw [if_pos (by rw [List.length_take]; omega), truncateRpid_of_lt_protocol h hp, take_protocolOf]
    · have hlen := length_truncateRpid_of_protocol_le h hp
      rw [List.take_of_length_le (by omega), if_neg (by omega), hlen, truncateRpid_of_protocol_le h hp,
        memWrite_append, show (protocolOf rpid).length + 3 = (protocolOf rpid ++ ellipsis).length by
          rw [List.length_append]; rfl, memWrite_append,
        List.take_of_length_le (by rw [List.length_drop]; omega), List.length_append,
        show 32 - ((protocolOf rpid).length + ellipsis.length) = 29 - (protocolOf rpid).length by
          show 32 - ((protocolOf rpid).length + 3) = _; omega]
      rfl
  · rw [if_pos h, truncateRpid_of_le h]

/-- At `stored_rpid` stand at most 32 bytes, `*stored_len` is their number, and nothing is written behind them. -/
structure StoredAs (stored : Nat → UInt8) (bytes : List UInt8) (r : (Nat → UInt8) × UInt8) : Prop where
  bound : bytes.length ≤ 32
  holds : Holds r.1 0 bytes
  len : r.2.toNat = bytes.length
  rest : ∀ i, bytes.length ≤ i → r.1 i = stored i

theorem truncateRpidInto_storedAs (stored : Nat → UInt8) :
    StoredAs stored (truncateRpid rpid) (truncateRpidInto stored rpid) := by
  have hbound : (truncateRpid rpid).length ≤ 32 := length_truncateRpid_le
  rw [truncateRpidInto_eq]
  refine ⟨hbound, holds_memWrite _ _ _, ?_, fun i hi => memWrite_of_ge _ (by omega)⟩
  show (UInt8.ofNat (truncateRpid rpid).length).toNat = _
  rw [UInt8.toNat_ofNat', Nat.mod_eq_of_lt (by omega)]

end Truncation

/-! ## The response -/

/-- A text string. -/
def encText (l : List UInt8) : List UInt8 := Encoder.numberBytes l.length 3 ++ l

/-- The response for an RP: ID, name and hash, and the total in the first response. -/
def rpResponse (rpId name : List UInt8) (rpIdHash : Bytes 32) (total : Nat) : List UInt8 :=
  encMap ([([3], encMap [(encText (ascii "id"), encText rpId), (encText (ascii "name"), encText name)]),
    ([4], encBytes rpIdHash.toList)] ++ if 0 < total then [([5], intBytes total)] else [])

section Response

variable {rk : ResidentKey} {rpId name out : List UInt8} {total : Nat} {w w' : World}

/-- The two members of an RP. -/
def encodeRp (rpId name : List UInt8) (map : Encoder) : EncM Encoder :=
  map.createMap 2 >>= fun rp => (rp.textString (ascii "id") >>= fun rp => rp.textString rpId >>= fun rp =>
    rp.textString (ascii "name") >>= fun rp => rp.textString name) >>= map.close

theorem appends_encText {l : List UInt8} : Appends 1 (encText l) (·.textString l) := appends_textString

theorem appends_encodeRp : Appends 1 (encMap [(encText (ascii "id"), encText rpId),
    (encText (ascii "name"), encText name)]) (encodeRp rpId name) := by
  have hmap := Appends.map (k := 2) (appends_encText (l := ascii "id") |>.andThen <|
    appends_encText (l := rpId) |>.andThen <| appends_encText (l := ascii "name") |>.andThen <|
    appends_encText (l := name))
  have hbytes : encMap [(encText (ascii "id"), encText rpId), (encText (ascii "name"), encText name)] =
      numberBytes 2 5 ++ (encText (ascii "id") ++ (encText rpId ++ (encText (ascii "name") ++ encText name))) := by
    simp only [encMap, List.map_cons, List.map_nil, List.flatten_cons, List.flatten_nil, List.append_nil,
      List.append_assoc]
    rfl
  rw [hbytes]
  exact hmap

theorem appends_encodeTotal {key : Int} (h : 0 < total) :
    Appends 2 (intBytes key ++ intBytes total) (encodeTotal · key total) :=
  (appends_int.andThen appends_int).congr fun e => by
    unfold encodeTotal
    rw [if_pos h]

theorem appends_encodeTotal_zero {key : Int} : Appends 0 [] (encodeTotal · key 0) := appends_nothing

/-- The members of the response. -/
def encodeRpMembers (rk : ResidentKey) (total : Nat) (map : Encoder) : EncM Encoder :=
  map.int 3 >>= fun map =>
    encodeRp (if rk.rpIdSize.toNat ≤ 32 then rk.rpId.toList.take rk.rpIdSize.toNat else []) (cstr rk.user.name.toList) map
      >>= fun map => map.int 4 >>= fun map => map.byteString rk.rpIdHash.toList >>= fun map => encodeTotal map 5 total

theorem cborEncodeEnumerateRp_eq : cborEncodeEnumerateRp rk total =
    encode (responseEncoder.createMap (if 0 < total then 3 else 2) >>= fun map => encodeRpMembers rk total map >>=
      responseEncoder.close) >>= fun e => pure e.out := by
  unfold cborEncodeEnumerateRp encodeRpMembers encodeRp
  simp only [encode_bind, bind_assoc]

theorem appends_encodeRpMembers (hsize : rk.rpIdSize.toNat ≤ 32) :
    Appends (if 0 < total then 6 else 4)
      ([3] ++ (encMap [(encText (ascii "id"), encText (rk.rpId.toList.take rk.rpIdSize.toNat)),
        (encText (ascii "name"), encText (cstr rk.user.name.toList))] ++
        ([4] ++ (encBytes rk.rpIdHash.toList ++ if 0 < total then [5] ++ intBytes total else []))))
      (encodeRpMembers rk total) := by
  unfold encodeRpMembers
  rw [if_pos hsize]
  by_cases htotal : 0 < total
  · rw [if_pos htotal, if_pos htotal]
    exact appends_int (v := 3) |>.andThen <| appends_encodeRp |>.andThen <| appends_int (v := 4) |>.andThen <|
      appends_byteString |>.andThen <| appends_encodeTotal htotal
  · obtain rfl : total = 0 := by omega
    rw [if_neg htotal, if_neg htotal]
    exact appends_int (v := 3) |>.andThen <| appends_encodeRp |>.andThen <| appends_int (v := 4) |>.andThen <|
      appends_byteString |>.andThen <| appends_encodeTotal_zero

/-- What `cbor_encode_enumerate_rp` writes. -/
theorem cborEncodeEnumerateRp_bytes (hsize : rk.rpIdSize.toNat ≤ 32)
    (h : cborEncodeEnumerateRp rk total w = .ok out w') :
    out = rpResponse (rk.rpId.toList.take rk.rpIdSize.toNat) (cstr rk.user.name.toList) rk.rpIdHash total := by
  rw [cborEncodeEnumerateRp_eq] at h
  obtain ⟨e, w₁, hmap, hout⟩ := bind_eq_ok.mp h
  obtain ⟨rfl, -⟩ := pure_eq_ok.mp hout
  have hn : (if 0 < total then 6 else 4) = 2 * if 0 < total then 3 else 2 := by split_ifs <;> rfl
  have hitems := @appends_encodeRpMembers rk total hsize
  rw [hn] at hitems
  obtain ⟨-, rfl⟩ := (Appends.map hitems).of_ok (encCheck_eq_ok.mp (ctapCheck_eq_ok.mp hmap).1)
  show [] ++ _ = rpResponse _ _ _ _
  unfold rpResponse
  generalize encMap [(encText (ascii "id"), encText (rk.rpId.toList.take rk.rpIdSize.toNat)),
    (encText (ascii "name"), encText (cstr rk.user.name.toList))] = rp
  unfold encMap
  by_cases htotal : 0 < total
  · simp only [if_pos htotal, List.cons_append, List.nil_append, List.map_cons, List.map_nil, List.flatten_cons,
      List.flatten_nil, List.append_nil]
    rfl
  · simp only [if_neg htotal, List.cons_append, List.nil_append, List.map_cons, List.map_nil, List.flatten_cons,
      List.flatten_nil, List.append_nil]
    rfl

end Response

/-! ## Records -/

/-- The record has the hash of an RP ID and its stored bytes, once it is decrypted. -/
structure ResidentKey.NamesRp (C : Primitives) (k : SessionKeys) (rk : ResidentKey) (rpId : List UInt8) : Prop where
  rpIdHash : (rk.xcrypt C k).rpIdHash = C.sha256 rpId
  rpIdSize : (rk.xcrypt C k).rpIdSize.toNat = (truncateRpid rpId).length
  rpId : (rk.xcrypt C k).rpId.toList.take (truncateRpid rpId).length = truncateRpid rpId

section Records

variable {P : Platform} {k : SessionKeys} {rk : ResidentKey} {rpId : List UInt8}

/-- A new record. -/
theorem makeResidentKey_namesRp (hC : P.prims.CtrUndoes) (id : CredentialId) (user : UserEntity) (nonce : Bytes 16) :
    (makeResidentKey P k id user (P.prims.sha256 rpId) rpId nonce).NamesRp P.prims k rpId := by
  set stored := truncateRpid rpId with hstored
  set new := makeResidentKey P k id user (P.prims.sha256 rpId) rpId nonce with hnew
  have hlen : stored.length ≤ 32 := length_truncateRpid_le
  have huserRp : (new.xcrypt P.prims k).userRp = Bytes.ofList 227 (user.raw.toList ++ (P.prims.sha256 rpId).toList
      ++ (Bytes.ofList 32 stored).toList ++ [UInt8.ofNat stored.length]) := hC _ _ _ _
  have hlist : (new.xcrypt P.prims k).userRp.toList = user.raw.toList ++ (P.prims.sha256 rpId).toList
      ++ (Bytes.ofList 32 stored).toList ++ [UInt8.ofNat stored.length] := by
    rw [huserRp]
    exact Bytes.toList_ofList_of_length (by simp)
  have hid : (new.xcrypt P.prims k).rpId = Bytes.ofList 32 stored := by
    refine Bytes.slice_of_append (user.raw.toList ++ (P.prims.sha256 rpId).toList) [UInt8.ofNat stored.length] ?_ (by simp)
    rw [hlist, List.append_assoc (_ ++ _)]
  refine ⟨?_, ?_, ?_⟩
  · refine Bytes.slice_of_append user.raw.toList ((Bytes.ofList 32 stored).toList ++ [UInt8.ofNat stored.length]) ?_
      (by simp)
    rw [hlist]
    simp only [List.append_assoc]
  · have hbyte : (new.xcrypt P.prims k).rpIdSize = UInt8.ofNat stored.length := by
      unfold ResidentKey.rpIdSize Bytes.byte
      rw [hlist, List.getD_eq_getElem?_getD, List.getElem?_append_right (by simp)]
      simp
    rw [hbyte, UInt8.toNat_ofNat', Nat.mod_eq_of_lt (by omega)]
  · rw [hid, Bytes.toList_ofList_of_le hlen, List.take_left]

/-- A renamed record. -/
theorem updatedRecord_namesRp (hC : P.prims.CtrUndoes) (h : rk.NamesRp P.prims k rpId) (user : UserEntity)
    (nonce : Bytes 16) : (updatedRecord P k (rk.xcrypt P.prims k) user nonce).NamesRp P.prims k rpId := by
  obtain ⟨hhash, hid, hsize⟩ := rp_updatedRecord (u := user) hC k (rk.xcrypt P.prims k) nonce
  exact ⟨hhash.trans h.rpIdHash, by rw [hsize, h.rpIdSize], by rw [hid, h.rpId]⟩

/-- The response for a record. -/
theorem ResidentKey.NamesRp.response (h : rk.NamesRp P.prims k rpId) {total : Nat} {out : List UInt8}
    (hout : Shows k cborEncodeEnumerateRp (rk.xcrypt P.prims k) total out) :
    out = rpResponse (truncateRpid rpId) (cstr (rk.xcrypt P.prims k).user.name.toList) (P.prims.sha256 rpId) total := by
  obtain ⟨w₁, w₂, -, hrun⟩ := hout
  have hsize := h.rpIdSize
  rw [cborEncodeEnumerateRp_bytes (by rw [hsize]; exact length_truncateRpid_le) hrun, hsize, h.rpId, h.rpIdHash]

end Records

/-! ## Every stored record -/

/-- A property of all stored records, under the keys in memory. -/
def AllRecords (Q : SessionKeys → ResidentKey → Prop) (w : World) : Prop := ∀ n, ∀ rk ∈ w.rkFiles n, Q w.keys rk

section AllRecords

variable {P : Platform} {Q : SessionKeys → ResidentKey → Prop} {w w' : World}

theorem AllRecords.congr (hw : AllRecords Q w) (hfiles : w'.rkFiles = w.rkFiles) (hkeys : w'.keys = w.keys) :
    AllRecords Q w' := by
  intro n rk hrk
  rw [hfiles] at hrk
  rw [hkeys]
  exact hw n rk hrk

theorem ignores_allRecords : Ignores [.stateFile, .counter, .pinState, .rkStored, .identity, .token, .boot, .ga, .cm,
    .upDisabled, .inputs, .pinChecks, .issued, .verified, .usage, .hmacOutputs, .signatures, .rkChanges,
    .assertionEvents, .journal, .fixed] (AllRecords Q) :=
  fun _ _ h hw => hw.congr (h .rkFiles (by decide)) (h .keys (by decide))

/-- A file of the store that was replaced. -/
theorem AllRecords.replaceFile (hw : AllRecords Q w) {n : Fin 16} {l : List ResidentKey}
    (hfiles : w'.rkFiles = Function.update w.rkFiles n l) (hkeys : w'.keys = w.keys) (hl : ∀ rk ∈ l, Q w.keys rk) :
    AllRecords Q w' := by
  intro m rk hrk
  rw [hfiles] at hrk
  rw [hkeys]
  by_cases hm : m = n
  · subst hm
    rw [Function.update_self] at hrk
    exact hl rk hrk
  · rw [Function.update_of_ne hm] at hrk
    exact hw m rk hrk

theorem AllRecords.overwrite (hw : AllRecords Q w) {rk : ResidentKey} (hrk : Q w.keys rk) :
    Ends (ctapOverwriteRk P rk) w (fun _ => AllRecords Q) fun _ => AllRecords Q := by
  unfold ctapOverwriteRk
  rw [ends_bind, ends_get]
  dsimp only
  cases h : overwriteFirst rk (w.rkFiles (rkFile rk.id.rpIdLookup)) with
  | some l =>
    show AllRecords Q _
    refine hw.replaceFile rfl rfl fun r hr => ?_
    rcases (overwriteFirst_some h).2 r hr with rfl | hr
    · exact hrk
    · exact hw _ r hr
  | none =>
    refine ends_of_ok (authenticatorWriteState_eq _) ?_
    refine hw.replaceFile rfl rfl fun r hr => ?_
    rcases List.mem_append.mp hr with hr | hr
    · exact hw _ r hr
    · rw [List.mem_singleton.mp hr]
      exact hrk

theorem allRecords_ctapDeleteRk {id : CredentialId} : Preserves (AllRecords Q) (ctapDeleteRk P id) := by
  refine preserves_of_ends fun w hw => ?_
  unfold ctapDeleteRk
  rw [ends_bind, ends_get]
  cases h : deleteFirst id (w.rkFiles (rkFile id.rpIdLookup)) with
  | none => exact hw
  | some l =>
    show Ends (do ctapDecrementRkStore P; pure true) (w.putRkFile (rkFile id.rpIdLookup) l _) _ _
    rw [ends_bind]
    refine ends_of_ok (authenticatorWriteState_eq _) ?_
    show AllRecords Q _
    exact hw.replaceFile rfl rfl fun r hr => hw _ r ((deleteFirst_some h).1.subset hr)

theorem allRecords_ctapReset : Preserves (AllRecords Q) (ctapReset P) := by
  refine preserves_of_ends fun w hw => (ctapReset_ends w).mono (fun _ w' h => ?_) fun _ w' h => ?_
  · intro n rk hrk
    rw [h.rkFiles] at hrk
    exact absurd hrk List.not_mem_nil
  · exact ignores_allRecords.mono (S := [.inputs, .assertionEvents]) (by decide) w w' h hw

/-- A new credential is stored for the RP of the request. -/
theorem allRecords_makeAttestedData {rp : RpId} {l : Bytes 16} {n : UInt32} {c : CredInfo} {e : Extensions}
    (hnew : ∀ k id user nonce, Q k (makeResidentKey P k id user (P.prims.sha256 rp.bytes) rp.bytes nonce)) :
    Preserves (AllRecords Q) (makeAttestedData P rp (P.prims.sha256 rp.bytes) l n c e) := by
  have hrng {n : Nat} : Preserves (AllRecords Q) (ctapGenerateRng n) :=
    ignores_allRecords.preserves touches_ctapGenerateRng (by decide)
  have hstore : ∀ rk : SessionKeys → ResidentKey, (∀ k, Q k (rk k)) →
      Preserves (AllRecords Q) (get >>= fun w : World => ctapOverwriteRk P (rk w.keys)) := by
    intro rk hrk
    refine preserves_of_ends fun w hw => ?_
    rw [ends_bind, ends_get]
    exact hw.overwrite (hrk _)
  refine preserves_get.bind fun _ => hrng.bind fun _ => Preserves.bind (preserves_onlyIf ?_) fun _ =>
    (ignores_allRecords.preserves touches_coseKeyGenerate (by decide)).bind fun _ => preserves_pure
  exact preserves_get.bind fun _ => preserves_failIf.bind fun _ => hrng.bind fun _ => hstore _ fun k => hnew k _ _ _

/-- Every command keeps a property of all records that new and renamed records have. -/
theorem allRecords_dispatch {c : Command} {request : List UInt8}
    (hnew : ∀ MC, c = .makeCredential → parseMakeCredential request = .ok MC → ∀ k id user nonce,
      Q k (makeResidentKey P k id user (P.prims.sha256 MC.rp.bytes) MC.rp.bytes nonce))
    (hrename : ∀ k rk user nonce, Q k rk → Q k (updatedRecord P k (rk.xcrypt P.prims k) user nonce)) :
    Preserves (AllRecords Q) (dispatch P c request) := by
  refine preserves_dispatch_of_command (ignores_allRecords.mono (by decide)) c (fun hc => ?_) (fun _ => ?_) (fun _ => ?_)
    fun _ => allRecords_ctapReset
  · exact preserves_ctapMakeCredential_of_parsed (ignores_allRecords.mono (by decide)) fun MC _ _ hMC _ =>
      allRecords_makeAttestedData (hnew MC hc hMC)
  · exact ignores_allRecords.preserves touches_ctapClientPin (by decide)
  · exact preserves_ctapCredentialManagement (ignores_allRecords.mono (by decide))
      (fun _ => preserves_deleteCredential fun _ => allRecords_ctapDeleteRk) fun _ =>
      preserves_updateUserInformation_of_update (ignores_allRecords.mono (by decide)) fun w r user nonce hw hr =>
        hw.overwrite (hrename _ _ _ _ (hw _ r hr))

end AllRecords

/-! ## Runs -/

/-- A makeCredential request for an RP ID. -/
def Served.RequestsRp (r : Served) (rpId : List UInt8) : Prop :=
  commandOf r.cmd = .makeCredential ∧ ∃ MC, parseMakeCredential r.request = .ok MC ∧ MC.rp.bytes = rpId

section Runs

variable {P : Platform} {h : List Entry} {w : World}

/-- Every stored record names an RP that was requested. -/
theorem Run.records_name (hC : P.prims.CtrUndoes) (hr : Run P h w) :
    AllRecords (fun k rk => ∃ r rpId, .request r ∈ h ∧ r.RequestsRp rpId ∧ rk.NamesRp P.prims k rpId) w := by
  induction hr with
  | start hw hb =>
    obtain ⟨salt, -, -, hfiles, -⟩ := hb.of_new hw
    intro n rk hrk
    rw [hfiles] at hrk
    exact absurd hrk List.not_mem_nil
  | @request h w hr r hv hb ih =>
    have hlater : AllRecords (fun k rk => ∃ r' rpId, .request r' ∈ .request r :: h ∧ r'.RequestsRp rpId ∧
        rk.NamesRp P.prims k rpId) r.before := by
      intro n rk hrk
      rw [hb] at hrk ⊢
      obtain ⟨r', rpId, hmem, hnames⟩ := ih n rk hrk
      exact ⟨r', rpId, List.mem_cons_of_mem _ hmem, hnames⟩
    refine hv.invariant (ignores_allRecords.mono (by decide)) (allRecords_dispatch ?_ ?_) hlater
    · intro MC hc hMC k id user nonce
      exact ⟨r, MC.rp.bytes, List.mem_cons_self, ⟨hc, MC, hMC, rfl⟩, makeResidentKey_namesRp hC id user nonce⟩
    · rintro k rk user nonce ⟨r', rpId, hmem, hreq, hnames⟩
      exact ⟨r', rpId, hmem, hreq, updatedRecord_namesRp hC hnames user nonce⟩
  | @boot h w w' hr hb ih =>
    obtain ⟨-, -, hfiles, -, -⟩ := hb.of_stored hr.synced.file hr.synced.version
    intro n rk hrk
    obtain ⟨r, rpId, hmem, hnames⟩ := ih.congr hfiles (hb.keys_kept hr.synced hr.storeOk.keys) n rk hrk
    exact ⟨r, rpId, List.mem_cons_of_mem _ hmem, hnames⟩

/-- RP IDs of at most 32 bytes are stored unchanged, longer ones as protocol, ellipsis and their end, or as the start
of a long protocol.  In every run a stored record has these bytes and the hash of an RP ID that was requested, and its
response in an enumeration of RPs reports both. -/
theorem rp_ids_stored_and_reported (hC : P.prims.CtrUndoes) (hr : Run P h w) :
    (∀ (stored : Nat → UInt8) (rpid : List UInt8),
      StoredAs stored (truncateRpid rpid) (truncateRpidInto stored rpid) ∧
      (rpid.length ≤ 32 → truncateRpid rpid = rpid) ∧
      (32 < rpid.length → (protocolOf rpid).length ≤ 29 → (truncateRpid rpid).length = 32 ∧
        truncateRpid rpid = protocolOf rpid ++ [0xe2, 0x80, 0xa6] ++
          rpid.drop (rpid.length - (29 - (protocolOf rpid).length))) ∧
      (32 < rpid.length → 29 < (protocolOf rpid).length →
        truncateRpid rpid = rpid.take (min (protocolOf rpid).length 32))) ∧
    (∀ rk ∈ w.records, ∃ r rpId, .request r ∈ h ∧ r.RequestsRp rpId ∧
      ∀ total out, Shows w.keys cborEncodeEnumerateRp (rk.xcrypt P.prims w.keys) total out →
        ∃ name, out = rpResponse (truncateRpid rpId) name (P.prims.sha256 rpId) total) ∧
    (w.Enumerable → ∀ b rs, Enumeration P w (fun CM => CM.subCommand = 2) 3 b rs → ∀ s ∈ b :: rs, s.status = .ok →
      ∃ r rpId name total, .request r ∈ h ∧ r.RequestsRp rpId ∧
        s.response = rpResponse (truncateRpid rpId) name (P.prims.sha256 rpId) total) := by
  have hrecords : ∀ rk ∈ w.records, ∃ r rpId, .request r ∈ h ∧ r.RequestsRp rpId ∧ ∀ total out,
      Shows w.keys cborEncodeEnumerateRp (rk.xcrypt P.prims w.keys) total out →
        ∃ name, out = rpResponse (truncateRpid rpId) name (P.prims.sha256 rpId) total := by
    intro rk hrk
    obtain ⟨n, hn⟩ := mem_records.mp hrk
    obtain ⟨r, rpId, hmem, hreq, hnames⟩ := hr.records_name hC n rk hn
    exact ⟨r, rpId, hmem, hreq, fun total out hout => ⟨_, hnames.response hout⟩⟩
  refine ⟨fun stored rpid => ⟨truncateRpidInto_storedAs stored, truncateRpid_of_le, fun hlen hp =>
    ⟨length_truncateRpid_of_protocol_le hlen hp, truncateRpid_of_protocol_le hlen hp⟩, truncateRpid_of_lt_protocol⟩,
    hrecords, fun he b rs hen s hs hok => ?_⟩
  have hw := hr.storeOk
  have hreturn := (rpEnumerator P).returnInTurn (.inl rfl) (fun _ => credMgmtCommand_rpsNext) hen
    fun CM hsub => begins_rps he (length_file_le hw) hsub
  obtain ⟨i, hi⟩ := List.mem_iff_getElem?.mp hs
  have hresponse := hreturn i s hi
  cases hrk : ((rpsFrom w 0).map (·.xcrypt P.prims w.keys))[i]? with
  | none =>
    rw [hrk] at hresponse
    exact absurd hok hresponse
  | some plain =>
    rw [hrk] at hresponse
    obtain ⟨rk, hmem, rfl⟩ := List.mem_map.mp (List.mem_of_getElem? hrk)
    obtain ⟨r, rpId, hrun, hreq, hshown⟩ := hrecords rk ((he.rps hw).2.1 rk hmem)
    obtain ⟨name, hout⟩ := hshown _ _ hresponse.2
    exact ⟨r, rpId, name, _, hrun, hreq, hout⟩

end Runs

/-- A credential for an RP ID of 39 bytes. -/
theorem rp_ids_stored_and_reported_long :
    ∃ h w, Run simPlatform h w ∧ w.records.length = 1 ∧
      ∀ rk ∈ w.records, ∃ r rpId, .request r ∈ h ∧ r.RequestsRp rpId ∧
        ∀ total out, Shows w.keys cborEncodeEnumerateRp (rk.xcrypt simPlatform.prims w.keys) total out →
          ∃ name, out = rpResponse (truncateRpid rpId) name (simPlatform.prims.sha256 rpId) total := by
  have heval : ((serveAll simPlatform simStart
      [touched 1 (encMap (makeCredentialMembers "https://login.accounts.example.org/fido" 1))]).map
      fun x => x.1.records.length) = some 1 := by
    decide +kernel
  obtain ⟨⟨w, rs⟩, hrs, hlen⟩ := Option.map_eq_some_iff.mp heval
  have hr := serveAll_run run_simStart hrs
  exact ⟨_, w, hr, hlen, (rp_ids_stored_and_reported simCipher_undoes hr).2.1⟩

end TkeyFido2
