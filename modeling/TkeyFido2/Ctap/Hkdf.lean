import TkeyFido2.Ctap.Crypto
import TkeyFido2.Ctap.Sha256
import TkeyFido2.Lib.Hmac
import TkeyFido2.Lib.Memory

/-!
# HMAC and HKDF of the device

`crypto_sha256_hmac_init` and `_final` and the two phases of HKDF in `crypto.c`, over the one global
hash context, against RFC 2104 and RFC 5869.  The lengths and counters of the expand loop are bytes.
-/

namespace TkeyFido2

open Memory

/-! ## HMAC -/

/-- Bytes passed with an 8-bit length. -/
abbrev ShortBytes := { l : List UInt8 // l.length ≤ 255 }

section Code

variable (ctx : Sha256Ctx)

/-- The zeroed `buf[64]` with the key copied to its start and every byte combined with `x`. -/
def hmacBuf (key : List UInt8) (x : UInt8) : List UInt8 :=
  (((Bytes.zero 64).patch 0 key).toList).map (· ^^^ x)

/-- `crypto_sha256_hmac_init`; `none` is the `exit` for a long key. -/
def cryptoSha256HmacInit (key : List UInt8) : Option Sha256Ctx :=
  if 64 < key.length then none else some (sha256Update (sha256Init ctx) (hmacBuf key 0x36))

/-- `crypto_sha256_hmac_final`. -/
def cryptoSha256HmacFinal (key : List UInt8) : Option (Sha256Ctx × Bytes 32) :=
  let inner := sha256Final ctx
  if 64 < key.length then none
  else some (sha256Final
    (sha256Update (sha256Update (sha256Init inner.1) (hmacBuf key 0x5c)) inner.2.toList))

/-- The salt, or the zero salt for a null pointer and for no bytes. -/
def hkdfSalt : Option ShortBytes → List UInt8
  | none => List.replicate 32 0
  | some salt => if salt.1.length = 0 then List.replicate 32 0 else salt.1

/-- `crypto_hkdf_extract_sha256`. -/
def cryptoHkdfExtractSha256 (salt : Option ShortBytes) (ikm : ShortBytes) : Option (Sha256Ctx × Bytes 32) := do
  let ctx ← cryptoSha256HmacInit ctx (hkdfSalt salt)
  cryptoSha256HmacFinal (sha256Update ctx ikm.1) (hkdfSalt salt)

end Code

/-- A round of the expand loop: the next block out of the last one. -/
def hkdfRound (ctx : Sha256Ctx) (prk : Bytes 32) (info : ShortBytes) (t : Bytes 32) (tLen counter : UInt8) :
    Option (Sha256Ctx × Bytes 32) := do
  let ctx ← cryptoSha256HmacInit ctx prk.toList
  let ctx := sha256Update ctx (t.toList.take tLen.toNat)
  let ctx := sha256Update ctx info.1
  let ctx := sha256Update ctx [counter]
  cryptoSha256HmacFinal ctx prk.toList

/-- The bytes copied in a round. -/
def hkdfToCopy (remaining : UInt8) : UInt8 := if 32 < remaining then 32 else remaining

theorem hkdfToCopy_toNat (remaining : UInt8) : (hkdfToCopy remaining).toNat = min 32 remaining.toNat := by
  have h32 : (32 : UInt8).toNat = 32 := rfl
  unfold hkdfToCopy
  by_cases h : 32 < remaining
  · have hlt := UInt8.lt_iff_toNat_lt.mp h
    rw [if_pos h]
    omega
  · have hle : ¬ (32 : UInt8).toNat < remaining.toNat := fun hc => h (UInt8.lt_iff_toNat_lt.mpr hc)
    rw [if_neg h]
    omega

theorem toNat_sub_hkdfToCopy (remaining : UInt8) :
    (remaining - hkdfToCopy remaining).toNat = remaining.toNat - min 32 remaining.toNat := by
  have hcopy := hkdfToCopy_toNat remaining
  rw [UInt8.toNat_sub_of_le _ _ (UInt8.le_iff_toNat_le.mpr (by omega)), hcopy]

/-- The loop of `crypto_hkdf_expand_sha256`, with `okm` as the memory behind the pointer. -/
def hkdfLoop (prk : Bytes 32) (info : ShortBytes) (ctx : Sha256Ctx) (okm : Nat → UInt8)
    (remaining : UInt8) (t : Bytes 32) (tLen counter copied : UInt8) : Option (Sha256Ctx × (Nat → UInt8)) :=
  if 0 < remaining then do
    let r ← hkdfRound ctx prk info t tLen counter
    let toCopy := hkdfToCopy remaining
    hkdfLoop prk info r.1 (memWrite okm copied.toNat (r.2.toList.take toCopy.toNat)) (remaining - toCopy) r.2 32
      (counter + 1) (copied + toCopy)
  else some (ctx, okm)
termination_by remaining.toNat
decreasing_by
  have hpos := UInt8.lt_iff_toNat_lt.mp (by assumption : 0 < remaining)
  rw [show (0 : UInt8).toNat = 0 from rfl] at hpos
  rw [toNat_sub_hkdfToCopy]
  omega

/-- `crypto_hkdf_expand_sha256`. -/
def cryptoHkdfExpandSha256 (ctx : Sha256Ctx) (prk : Bytes 32) (info : ShortBytes) (okm : Nat → UInt8)
    (okmLen : UInt8) : Option (Sha256Ctx × (Nat → UInt8)) :=
  hkdfLoop prk info ctx okm okmLen (Bytes.zero 32) 0 1 0

/-! ## Against the standards -/

/-- HMAC-SHA-256. -/
abbrev hmacSha256 : List UInt8 → List UInt8 → Bytes 32 := Hmac.hmac Sha2.sha256 64

theorem hmacBuf_eq {key : List UInt8} (h : key.length ≤ 64) (x : UInt8) :
    hmacBuf key x = (Hmac.blockKey Sha2.sha256 64 key).map (· ^^^ x) := by
  rw [Hmac.blockKey_of_le _ h, hmacBuf, Bytes.toList_patch_of_le _ _ _ (by omega), Bytes.toList_zero,
    List.take_zero, List.nil_append, Nat.zero_add, List.drop_replicate]

/-- What the context holds in the middle of an HMAC computation. -/
def Sha256Ctx.InHmac (ctx : Sha256Ctx) (key msg : List UInt8) : Prop :=
  ctx.Has ((Hmac.blockKey Sha2.sha256 64 key).map (· ^^^ 0x36) ++ msg)

theorem cryptoSha256HmacInit_eq (ctx : Sha256Ctx) {key : List UInt8} (h : key.length ≤ 64) :
    ∃ ctx', cryptoSha256HmacInit ctx key = some ctx' ∧ ctx'.InHmac key [] := by
  refine ⟨_, if_neg (by omega), ?_⟩
  have hhas := sha256Update_has (sha256Init_has ctx) (hmacBuf key 0x36)
  rw [List.nil_append, hmacBuf_eq h] at hhas
  unfold Sha256Ctx.InHmac
  rwa [List.append_nil, hmacBuf_eq h]

variable {ctx : Sha256Ctx} {key msg : List UInt8}

theorem Sha256Ctx.InHmac.update (h : ctx.InHmac key msg) (data : List UInt8) :
    (sha256Update ctx data).InHmac key (msg ++ data) := by
  have hhas := sha256Update_has h data
  rwa [List.append_assoc] at hhas

/-- Any number of updates. -/
theorem Sha256Ctx.InHmac.updates (h : ctx.InHmac key msg) (pieces : List (List UInt8)) :
    (pieces.foldl sha256Update ctx).InHmac key (msg ++ pieces.flatten) := by
  induction pieces generalizing ctx msg with
  | nil => rwa [List.flatten_nil, List.append_nil]
  | cons piece pieces ih =>
    have hstep := ih (h.update piece)
    rwa [List.append_assoc] at hstep

theorem cryptoSha256HmacFinal_eq (hkey : key.length ≤ 64) (h : ctx.InHmac key msg) :
    ∃ ctx', cryptoSha256HmacFinal ctx key = some (ctx', hmacSha256 key msg) := by
  have hinner := sha256Final_eq h
  have houter := sha256Final_eq (sha256Update_has (sha256Update_has
    (sha256Init_has (sha256Final ctx).1) (hmacBuf key 0x5c)) (sha256Final ctx).2.toList)
  refine ⟨_, (if_neg (by omega)).trans (congrArg some (Prod.ext rfl ?_))⟩
  rw [houter, List.nil_append, hinner, hmacBuf_eq hkey]
  rfl

/-- HMAC over the global context, whatever it held before and in whatever pieces the message comes. -/
theorem cryptoSha256Hmac_eq (ctx : Sha256Ctx) (hkey : key.length ≤ 64) (pieces : List (List UInt8)) :
    ∃ ctx', (cryptoSha256HmacInit ctx key >>= fun c => cryptoSha256HmacFinal (pieces.foldl sha256Update c) key)
      = some (ctx', hmacSha256 key pieces.flatten) := by
  obtain ⟨c, hinit, hc⟩ := cryptoSha256HmacInit_eq ctx hkey
  obtain ⟨c', hfinal⟩ := cryptoSha256HmacFinal_eq hkey (hc.updates pieces)
  rw [List.nil_append] at hfinal
  exact ⟨c', by rw [hinit]; exact hfinal⟩

theorem hkdfRound_eq (ctx : Sha256Ctx) (prk : Bytes 32) (info : ShortBytes) (t : Bytes 32) (tLen counter : UInt8) :
    ∃ ctx', hkdfRound ctx prk info t tLen counter
      = some (ctx', hmacSha256 prk.toList (t.toList.take tLen.toNat ++ info.1 ++ [counter])) := by
  have h := cryptoSha256Hmac_eq ctx (show prk.toList.length ≤ 64 by rw [List.Vector.toList_length]; omega)
    [t.toList.take tLen.toNat, info.1, [counter]]
  rw [List.append_assoc]
  exact h

theorem cryptoHkdfExtractSha256_eq (ctx : Sha256Ctx) (salt : Option ShortBytes) (ikm : ShortBytes)
    (hsalt : ∀ l, salt = some l → l.1.length ≤ 64) :
    ∃ ctx', cryptoHkdfExtractSha256 ctx salt ikm
      = some (ctx', Hmac.extract Sha2.sha256 64 (salt.map Subtype.val) ikm.1) := by
  have hlen : (hkdfSalt salt).length ≤ 64 := by
    cases salt with
    | none =>
      rw [hkdfSalt, List.length_replicate]
      omega
    | some l =>
      by_cases hempty : l.1.length = 0
      · rw [show hkdfSalt (some l) = _ from if_pos hempty, List.length_replicate]
        omega
      · rw [show hkdfSalt (some l) = _ from if_neg hempty]
        exact hsalt l rfl
  have hextract : Hmac.extract Sha2.sha256 64 (salt.map Subtype.val) ikm.1
      = hmacSha256 (hkdfSalt salt) ikm.1 := by
    cases salt with
    | none => rfl
    | some l =>
      by_cases hempty : l.1.length = 0
      · rw [show hkdfSalt (some l) = _ from if_pos hempty, Option.map_some,
          List.eq_nil_of_length_eq_zero hempty, Hmac.extract_empty _ _ (by omega)]
        rfl
      · rw [show hkdfSalt (some l) = _ from if_neg hempty]
        rfl
  obtain ⟨c, hc⟩ := cryptoSha256Hmac_eq ctx hlen [ikm.1]
  rw [hextract]
  exact ⟨c, by rw [← List.append_nil ikm.1]; exact hc⟩

/-! ## The expand loop -/

section Expand

variable (prk : Bytes 32) (info : ShortBytes)

/-- The blocks and the output of RFC 5869. -/
abbrev hkdfBlock (i : Nat) : List UInt8 := Hmac.expandBlock Sha2.sha256 64 prk.toList info.1 i
abbrev hkdfBlocks (i : Nat) : List UInt8 := Hmac.expandBlocks Sha2.sha256 64 prk.toList info.1 i
abbrev hkdfExpand (len : Nat) : List UInt8 := Hmac.expand Sha2.sha256 64 prk.toList info.1 len

/-- After `i` rounds: the last block is in `t`, and the output up to there is written. -/
structure HkdfProgress (len i : Nat) (mem okm : Nat → UInt8) (remaining : UInt8) (t : Bytes 32)
    (tLen counter copied : UInt8) : Prop where
  remaining_eq : remaining.toNat = len - 32 * i
  block_eq : t.toList.take tLen.toNat = hkdfBlock prk info i
  counter_eq : counter = UInt8.ofNat (i + 1)
  copied_eq : copied.toNat = min (32 * i) len
  okm_eq : okm = memWrite mem 0 ((hkdfBlocks prk info i).take len)

variable {prk info} {len i : Nat} {mem okm : Nat → UInt8} {remaining tLen counter copied : UInt8} {t : Bytes 32}

theorem HkdfProgress.done (h : HkdfProgress prk info len i mem okm remaining t tLen counter copied)
    (hzero : remaining.toNat = 0) : okm = memWrite mem 0 (hkdfExpand prk info len) := by
  have hrem := h.remaining_eq
  rw [h.okm_eq, hkdfBlocks, Hmac.take_expandBlocks_of_le Sha2.sha256 64 prk.toList info.1
    (show len ≤ 32 * ((len + 32 - 1) / 32) by omega) (show (len + 32 - 1) / 32 ≤ i by omega)]
  rfl

theorem HkdfProgress.step (hlen : len ≤ 255)
    (h : HkdfProgress prk info len i mem okm remaining t tLen counter copied) (hpos : 0 < remaining.toNat) :
    HkdfProgress prk info len (i + 1) mem
      (memWrite okm copied.toNat
        ((hmacSha256 prk.toList (t.toList.take tLen.toNat ++ info.1 ++ [counter])).toList.take
          (hkdfToCopy remaining).toNat))
      (remaining - hkdfToCopy remaining)
      (hmacSha256 prk.toList (t.toList.take tLen.toNat ++ info.1 ++ [counter])) 32 (counter + 1)
      (copied + hkdfToCopy remaining) := by
  have hrem := h.remaining_eq
  have hcopied := h.copied_eq
  have hcopy := hkdfToCopy_toNat remaining
  have hblock : (hmacSha256 prk.toList (t.toList.take tLen.toNat ++ info.1 ++ [counter])).toList
      = hkdfBlock prk info (i + 1) := by
    rw [h.block_eq, h.counter_eq]
    rfl
  have hblocks : (hkdfBlocks prk info i).length = 32 * i := Hmac.length_expandBlocks _ _ _ _ _
  have hwhole : (hkdfBlock prk info (i + 1)).length = 32 := List.Vector.toList_length _
  refine ⟨?_, ?_, ?_, ?_, ?_⟩
  · rw [toNat_sub_hkdfToCopy]
    omega
  · rw [hblock]
    exact List.take_of_length_le hwhole.le
  · rw [h.counter_eq, show (1 : UInt8) = UInt8.ofNat 1 from rfl, ← UInt8.ofNat_add]
  · rw [UInt8.toNat_add]
    omega
  · have hstart : copied.toNat = (hkdfBlocks prk info i).length := by omega
    have hlast : (hkdfBlock prk info (i + 1)).take (hkdfToCopy remaining).toNat
        = (hkdfBlock prk info (i + 1)).take (len - 32 * i) := by
      rw [List.take_eq_take_iff]
      omega
    have hnext : (hkdfBlocks prk info (i + 1)).take len
        = hkdfBlocks prk info i ++ (hkdfBlock prk info (i + 1)).take (len - 32 * i) := by
      rw [hkdfBlocks, Hmac.expandBlocks_succ, List.take_append, hblocks,
        List.take_of_length_le (show (hkdfBlocks prk info i).length ≤ len by omega)]
    rw [h.okm_eq, List.take_of_length_le (by omega), hstart, memWrite_append, hblock, hlast, hnext]

theorem hkdfLoop_eq (hlen : len ≤ 255) (ctx : Sha256Ctx)
    (h : HkdfProgress prk info len i mem okm remaining t tLen counter copied) :
    ∃ ctx', hkdfLoop prk info ctx okm remaining t tLen counter copied
      = some (ctx', memWrite mem 0 (hkdfExpand prk info len)) := by
  induction hm : remaining.toNat using Nat.strong_induction_on
    generalizing ctx okm remaining t tLen counter copied i with
  | _ m ih =>
    rw [hkdfLoop]
    by_cases hpos : 0 < remaining
    · have hpos' : 0 < remaining.toNat := UInt8.lt_iff_toNat_lt.mp hpos
      obtain ⟨c, hround⟩ := hkdfRound_eq ctx prk info t tLen counter
      rw [if_pos hpos, hround]
      refine ih _ ?_ c (h.step hlen hpos') rfl
      rw [toNat_sub_hkdfToCopy]
      omega
    · have hzero : remaining.toNat = 0 := by
        have := mt UInt8.lt_iff_toNat_lt.mpr hpos
        rw [show (0 : UInt8).toNat = 0 from rfl] at this
        omega
      rw [if_neg hpos, h.done hzero]
      exact ⟨ctx, rfl⟩

/-- `crypto_hkdf_expand_sha256` returns, and writes what RFC 5869 says and nothing else. -/
theorem cryptoHkdfExpandSha256_eq (ctx : Sha256Ctx) (prk : Bytes 32) (info : ShortBytes) (okm : Nat → UInt8)
    (okmLen : UInt8) :
    ∃ ctx', cryptoHkdfExpandSha256 ctx prk info okm okmLen
      = some (ctx', memWrite okm 0 (hkdfExpand prk info okmLen.toNat)) := by
  refine hkdfLoop_eq (i := 0) (Nat.le_of_lt_succ okmLen.toNat_lt) ctx ⟨rfl, rfl, rfl, ?_, ?_⟩
  · exact (Nat.zero_min _).symm
  · rw [show (hkdfBlocks prk info 0).take okmLen.toNat = [] from List.take_nil, memWrite_nil]

/-- The key derivation of the device is that of the standards, for the lengths its parameters have. -/
theorem hkdf_is_rfc5869 (ctx : Sha256Ctx) :
    (∀ (prk : Bytes 32) (info : ShortBytes) (okm : Nat → UInt8) (okmLen : UInt8),
      ∃ ctx', cryptoHkdfExpandSha256 ctx prk info okm okmLen
        = some (ctx', memWrite okm 0 (Hmac.expand Sha2.sha256 64 prk.toList info.1 okmLen.toNat))) ∧
      (∀ (salt : Option ShortBytes) (ikm : ShortBytes), (∀ l, salt = some l → l.1.length ≤ 64) →
        ∃ ctx', cryptoHkdfExtractSha256 ctx salt ikm
          = some (ctx', Hmac.extract Sha2.sha256 64 (salt.map Subtype.val) ikm.1)) ∧
      ∀ (key : List UInt8) (pieces : List (List UInt8)), key.length ≤ 64 →
        ∃ ctx', (cryptoSha256HmacInit ctx key >>= fun c =>
            cryptoSha256HmacFinal (pieces.foldl sha256Update c) key)
          = some (ctx', Hmac.hmac Sha2.sha256 64 key pieces.flatten) :=
  ⟨cryptoHkdfExpandSha256_eq ctx, cryptoHkdfExtractSha256_eq ctx,
    fun _ pieces hkey => cryptoSha256Hmac_eq ctx hkey pieces⟩

/-- No salt at all, with the context that the program starts with. -/
theorem hkdf_is_rfc5869_no_salt :
    ∃ ctx', cryptoHkdfExtractSha256 ⟨Bytes.zero 64, 0, 0, List.Vector.replicate 8 0⟩ none ⟨[1, 2, 3], by decide⟩
      = some (ctx', Hmac.extract Sha2.sha256 64 none [1, 2, 3]) :=
  (hkdf_is_rfc5869 ⟨Bytes.zero 64, 0, 0, List.Vector.replicate 8 0⟩).2.1 none ⟨[1, 2, 3], by decide⟩
    fun l hl => absurd hl (Option.some_ne_none l).symm

end Expand

/-! ## The key derivation of the model -/

section Primitives

variable {C : Primitives} (hC : C.sha256 = Sha2.sha256)

include hC

/-- `Primitives.hmac` is what the device computes when its hash is SHA-256. -/
theorem Primitives.hmac_eq_hmacSha256 {key : List UInt8} (hkey : key.length ≤ 64) (msg : List UInt8) :
    C.hmac key msg = hmacSha256 key msg := by
  unfold Primitives.hmac hmacSha256 Hmac.hmac
  rw [hC, Bytes.toList_ofList_of_le hkey, Hmac.blockKey_of_le _ hkey]

theorem Primitives.hkdfExtract_eq (salt : ShortBytes) (hsalt : salt.1.length ≤ 64) (ikm : List UInt8) :
    C.hkdfExtract salt.1 ikm = hmacSha256 (hkdfSalt (some salt)) ikm := by
  by_cases hempty : salt.1.length = 0
  · rw [show hkdfSalt (some salt) = _ from if_pos hempty, Primitives.hkdfExtract,
      if_pos (List.eq_nil_of_length_eq_zero hempty), C.hmac_eq_hmacSha256 hC]
    rw [List.length_replicate]
    omega
  · rw [show hkdfSalt (some salt) = _ from if_neg hempty, Primitives.hkdfExtract,
      if_neg (fun h => hempty (List.length_eq_zero_iff.mpr h)), C.hmac_eq_hmacSha256 hC hsalt]

/-- The keys of 32 bytes come out of one round of the expand loop. -/
theorem Primitives.hkdfExpand32_eq (prk : Bytes 32) (info : ShortBytes) :
    (C.hkdfExpand32 prk info.1).toList = hkdfExpand prk info 32 := by
  have hone : hkdfBlocks prk info 1 = hkdfBlock prk info 1 := List.append_nil _
  have hwhole : (hkdfBlock prk info 1).length = 32 := List.Vector.toList_length _
  show _ = (hkdfBlocks prk info 1).take 32
  rw [hone, List.take_of_length_le hwhole.le, Primitives.hkdfExpand32,
    C.hmac_eq_hmacSha256 hC (by rw [List.Vector.toList_length]; omega)]
  rfl

end Primitives

end TkeyFido2
