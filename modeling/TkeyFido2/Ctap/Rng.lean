import Mathlib.Algebra.GroupWithZero.Nat
import TkeyFido2.Ctap.Crypto
import TkeyFido2.Lib.BlockSource

/-!
# The random number generator

`rng.c`.  The state is hashed, the first half of the digest is given out and the whole digest becomes
a part of the next state.  Bytes that a request leaves over are kept for the next one, counted down in
`valid_bytes`.
-/

namespace TkeyFido2

/-! ## Words in memory -/

abbrev Words (n : Nat) := List.Vector UInt32 n

/-- Words as bytes, the way they lie in memory. -/
def wordBytes (l : List UInt32) : List UInt8 := l.flatMap le32

/-- The first `n` words of some memory. -/
def wordsAt : Nat → List UInt8 → List UInt32
  | 0, _ => []
  | n + 1, l => ofLe32 l :: wordsAt n (l.drop 4)

theorem length_wordsAt (n : Nat) (l : List UInt8) : (wordsAt n l).length = n := by
  induction n generalizing l with
  | zero => rfl
  | succ n ih => exact congrArg Nat.succ (ih _)

theorem le32_ofLe32 (a b c d : UInt8) (l : List UInt8) :
    le32 (ofLe32 (a :: b :: c :: d :: l)) = [a, b, c, d] := by
  have ha := a.toNat_lt
  have hb := b.toNat_lt
  have hc := c.toNat_lt
  have hd := d.toNat_lt
  simp only [le32, ofLe32, List.getD_cons_zero, List.getD_cons_succ, UInt32.toNat_ofNat']
  refine List.cons_eq_cons.mpr ⟨?_, List.cons_eq_cons.mpr ⟨?_, List.cons_eq_cons.mpr ⟨?_,
    List.cons_eq_cons.mpr ⟨?_, rfl⟩⟩⟩⟩
  all_goals
    apply UInt8.toNat_inj.mp
    rw [UInt8.toNat_ofNat']
    omega

theorem wordBytes_wordsAt (n : Nat) {l : List UInt8} (h : l.length = 4 * n) : wordBytes (wordsAt n l) = l := by
  induction n generalizing l with
  | zero => exact (List.eq_nil_of_length_eq_zero h).symm
  | succ n ih =>
    rcases l with _ | ⟨a, _ | ⟨b, _ | ⟨c, _ | ⟨d, l⟩⟩⟩⟩
    all_goals simp only [List.length_cons, List.length_nil] at h
    · omega
    · omega
    · omega
    · omega
    show le32 (ofLe32 (a :: b :: c :: d :: l)) ++ wordBytes (wordsAt n l) = _
    rw [le32_ofLe32, ih (by omega)]
    rfl

/-! ## rng_ctx -/

def reseedTime : UInt32 := 4096

/-- `rng_ctx` without `valid_bytes`, and how many words the entropy source has given. -/
structure RngCtx where
  stateCtrLsb : UInt32
  stateCtrMsb : UInt32
  reseedCtr : UInt32
  state : Words 16
  digest : Words 8
  entropyPos : Nat

namespace RngCtx

variable (C : Primitives) (entropy : Nat → UInt32)

/-- `crypto_sha256` of the state into `digest`. -/
def hash (ctx : RngCtx) : RngCtx :=
  { ctx with digest := ⟨wordsAt 8 (C.sha256 (wordBytes ctx.state.toList)).toList, length_wordsAt _ _⟩ }

/-- The digest becomes the first half of the state. -/
def takeDigest (ctx : RngCtx) : RngCtx :=
  { ctx with state := List.Vector.ofFn fun i =>
      if h : i.1 < 8 then ctx.digest.get ⟨i.1, h⟩ else ctx.state.get i }

/-- The 64-bit counter in two words. -/
def count (ctx : RngCtx) : RngCtx :=
  let lsb := ctx.stateCtrLsb + 1
  let msb := if lsb = 0 then ctx.stateCtrMsb + 1 else ctx.stateCtrMsb
  { ctx with
    stateCtrLsb := lsb
    stateCtrMsb := msb
    state := (ctx.state.set 14 (ctx.state.get 14 + msb)).set 15 (ctx.state.get 15 + lsb) }

/-- Fresh entropy for the second half, after every `RESEED_TIME` updates. -/
def reseed (ctx : RngCtx) : RngCtx :=
  let ctr := ctx.reseedCtr + 1
  if ctr = reseedTime then
    { ctx with
      reseedCtr := 0
      state := List.Vector.ofFn fun i =>
        if i.1 < 8 then ctx.state.get i else entropy (ctx.entropyPos + (i.1 - 8))
      entropyPos := ctx.entropyPos + 8 }
  else { ctx with reseedCtr := ctr }

theorem digest_reseed (ctx : RngCtx) : (ctx.reseed entropy).digest = ctx.digest := by
  by_cases h : ctx.reseedCtr + 1 = reseedTime
  · simp only [reseed, if_pos h]
  · simp only [reseed, if_neg h]

/-- `rng_update`. -/
def update (ctx : RngCtx) : RngCtx := ctx.takeDigest.count.reseed entropy

/-- One step of the generator. -/
def hashAndUpdate (ctx : RngCtx) : RngCtx := (ctx.hash C).update entropy

/-- The digest as bytes. -/
def digestBytes (ctx : RngCtx) : List UInt8 := wordBytes ctx.digest.toList

end RngCtx

/-- The static variables of `rng.c`.  A digest has sixteen bytes to give. -/
structure RngDevice where
  ctx : RngCtx
  validBytes : Nat
  validBytes_le : validBytes ≤ 16
  rngInitialized : Bool

section Rng

variable (C : Primitives) (entropy : Nat → UInt32)

/-- The state mixed out of the device identifier and entropy, before the first hash. -/
def rngSeed (cdi : Words 8) (ctx : RngCtx) : RngCtx :=
  { stateCtrLsb := entropy (ctx.entropyPos + 16)
    stateCtrMsb := entropy (ctx.entropyPos + 17)
    reseedCtr := 0
    state := List.Vector.ofFn fun i =>
      if h : i.1 < 8 then cdi.get ⟨i.1, h⟩ + entropy (ctx.entropyPos + 2 * i.1)
      else entropy (ctx.entropyPos + 2 * (i.1 - 8) + 1)
    digest := ctx.digest
    entropyPos := ctx.entropyPos + 18 }

/-- `rng_init`. -/
def rngInit (cdi : Words 8) (r : RngDevice) : RngDevice :=
  ⟨(rngSeed entropy cdi r.ctx).hashAndUpdate C entropy, 16, le_refl 16, true⟩

/-- A new digest where none of the last is left. -/
def rngRefill (r : RngDevice) : RngDevice :=
  if r.validBytes = 0 then ⟨r.ctx.hashAndUpdate C entropy, 16, le_refl 16, r.rngInitialized⟩ else r

theorem rngRefill_validBytes_pos (r : RngDevice) : 0 < (rngRefill C entropy r).validBytes := by
  unfold rngRefill
  split
  · exact Nat.zero_lt_succ 15
  · omega

/-- The loop of `rng_get_bytes`: `sz` bytes from `dst_index` on. -/
def rngFill (sz dstIndex : Nat) (dst : List UInt8) (r : RngDevice) : List UInt8 × RngDevice :=
  if dstIndex < sz then
    let r' := rngRefill C entropy r
    let toCopy := min r'.validBytes (sz - dstIndex)
    let offset := 16 - r'.validBytes
    rngFill sz (dstIndex + toCopy) (dst ++ (r'.ctx.digestBytes.drop offset).take toCopy)
      ⟨r'.ctx, r'.validBytes - toCopy, (Nat.sub_le _ _).trans r'.validBytes_le, r'.rngInitialized⟩
  else (dst, r)
termination_by sz - dstIndex
decreasing_by
  have := rngRefill_validBytes_pos C entropy r
  omega

/-- `rng_get_bytes`: the return value and the bytes written. -/
def rngGetBytes (sz : Nat) (r : RngDevice) : Int × List UInt8 × RngDevice :=
  if r.rngInitialized then
    let filled := rngFill C entropy sz 0 [] r
    (0, filled)
  else (-1, [], r)

/-- Requests one after the other: what each returns and writes. -/
def rngRequests : List Nat → RngDevice → List (Int × List UInt8) × RngDevice
  | [], r => ([], r)
  | sz :: sizes, r =>
    let got := rngGetBytes C entropy sz r
    let rest := rngRequests sizes got.2.2
    ((got.1, got.2.1) :: rest.1, rest.2)

/-! ## The generator is a buffered source -/

namespace RngDevice

def reader (r : RngDevice) : BlockSource.Reader RngCtx 16 := ⟨r.ctx, r.validBytes, r.validBytes_le⟩

/-- The device with another reader. -/
def withReader (r : RngDevice) (R : BlockSource.Reader RngCtx 16) : RngDevice :=
  ⟨R.source, R.left, R.left_le, r.rngInitialized⟩

end RngDevice

/-- A byte of the digest. -/
def digestByte (ctx : RngCtx) (j : Nat) : UInt8 := ctx.digestBytes.getD j 0

theorem length_digestBytes (ctx : RngCtx) : ctx.digestBytes.length = 32 := by
  unfold RngCtx.digestBytes wordBytes
  rw [List.length_flatMap, List.map_congr_left (g := fun _ => 4) fun w _ => length_le32 w, List.map_const',
    List.sum_replicate, List.Vector.toList_length]
  rfl

theorem take_drop_digestBytes (ctx : RngCtx) {off k : Nat} (h : off + k ≤ 32) :
    (ctx.digestBytes.drop off).take k = (List.range k).map fun j => digestByte ctx (off + j) := by
  have hlen := length_digestBytes ctx
  refine List.ext_getElem (by simp; omega) fun j hj hj' => ?_
  simp only [List.length_map, List.length_range] at hj'
  rw [List.getElem_take, List.getElem_drop, List.getElem_map, List.getElem_range, digestByte,
    List.getD_eq_getElem?_getD, List.getElem?_eq_getElem (by omega), Option.getD_some]

abbrev rngRead (k : Nat) (r : RngDevice) : List UInt8 × BlockSource.Reader RngCtx 16 :=
  BlockSource.read (RngCtx.hashAndUpdate C entropy) digestByte k r.reader

theorem rngRead_refill {k : Nat} (hk : 0 < k) (r : RngDevice) :
    rngRead C entropy k (rngRefill C entropy r) = rngRead C entropy k r := by
  unfold rngRefill
  split
  · next hzero => exact (BlockSource.read_refill _ _ hk r.reader hzero (Nat.zero_lt_succ 15)).symm
  · rfl

theorem withReader_refill (r : RngDevice) (R : BlockSource.Reader RngCtx 16) :
    (rngRefill C entropy r).withReader R = r.withReader R := by
  unfold rngRefill
  split <;> rfl

/-- One round of the loop. -/
theorem rngFill_of_lt {sz dstIndex : Nat} (h : dstIndex < sz) (dst : List UInt8) {r r' : RngDevice}
    (hr : rngRefill C entropy r = r') {k : Nat} (hk : min r'.validBytes (sz - dstIndex) = k) :
    rngFill C entropy sz dstIndex dst r
      = rngFill C entropy sz (dstIndex + k) (dst ++ (r'.ctx.digestBytes.drop (16 - r'.validBytes)).take k)
          ⟨r'.ctx, r'.validBytes - k, (Nat.sub_le _ _).trans r'.validBytes_le, r'.rngInitialized⟩ := by
  subst hr hk
  rw [rngFill, if_pos h]

/-- The loop reads the rest of the request. -/
theorem rngFill_eq_read (sz dstIndex : Nat) (dst : List UInt8) (r : RngDevice) :
    rngFill C entropy sz dstIndex dst r
      = (dst ++ (rngRead C entropy (sz - dstIndex) r).1,
          r.withReader (rngRead C entropy (sz - dstIndex) r).2) := by
  induction hm : sz - dstIndex using Nat.strong_induction_on generalizing dstIndex dst r with
  | _ m ih =>
    by_cases hlt : dstIndex < sz
    · obtain ⟨r', hr⟩ : ∃ r', rngRefill C entropy r = r' := ⟨_, rfl⟩
      obtain ⟨k, hk⟩ : ∃ k, min r'.validBytes (sz - dstIndex) = k := ⟨_, rfl⟩
      have hpos : 0 < r'.validBytes := hr ▸ rngRefill_validBytes_pos C entropy r
      have hle := r'.validBytes_le
      -- the rest of the request is this chunk and what is read behind it
      have hchunk := BlockSource.read_chunk (RngCtx.hashAndUpdate C entropy) digestByte k r'.reader
        (show k ≤ r'.validBytes by omega)
      have hsplit := BlockSource.read_add (RngCtx.hashAndUpdate C entropy) digestByte k (m - k) r'.reader
      rw [hchunk, Nat.add_sub_cancel' (by omega)] at hsplit
      have hread : rngRead C entropy m r = rngRead C entropy m r' :=
        hr ▸ (rngRead_refill C entropy (by omega) r).symm
      have hwith : ∀ R, r.withReader R = r'.withReader R :=
        fun R => hr ▸ (withReader_refill C entropy r R).symm
      rw [rngFill_of_lt C entropy hlt dst hr hk, ih (m - k) (by omega) _ _ _ (by omega),
        take_drop_digestBytes _ (by omega), hread, hwith, show rngRead C entropy m r' = _ from hsplit,
        List.append_assoc]
      rfl
    · rw [rngFill, if_neg hlt, ← hm, Nat.sub_eq_zero_of_le (by omega)]
      show _ = (dst ++ [], _)
      rw [List.append_nil]
      rfl

/-! ## Requests -/

theorem rngGetBytes_eq_read (sz : Nat) {r : RngDevice} (h : r.rngInitialized = true) :
    rngGetBytes C entropy sz r
      = (0, (rngRead C entropy sz r).1, r.withReader (rngRead C entropy sz r).2) := by
  unfold rngGetBytes
  rw [if_pos h, rngFill_eq_read]
  rfl

theorem rngRead_add (n₁ n₂ : Nat) (r : RngDevice) :
    rngRead C entropy (n₁ + n₂) r
      = ((rngRead C entropy n₁ r).1 ++ (rngRead C entropy n₂ (r.withReader (rngRead C entropy n₁ r).2)).1,
          (rngRead C entropy n₂ (r.withReader (rngRead C entropy n₁ r).2)).2) :=
  BlockSource.read_add _ _ n₁ n₂ r.reader

/-- One request is the same as two for its parts, from any state. -/
theorem rngGetBytes_add (n₁ n₂ : Nat) (r : RngDevice) :
    (rngGetBytes C entropy (n₁ + n₂) r).2
      = ((rngGetBytes C entropy n₁ r).2.1
            ++ (rngGetBytes C entropy n₂ (rngGetBytes C entropy n₁ r).2.2).2.1,
          (rngGetBytes C entropy n₂ (rngGetBytes C entropy n₁ r).2.2).2.2) := by
  cases h : r.rngInitialized with
  | true =>
    rw [rngGetBytes_eq_read C entropy _ h, rngGetBytes_eq_read C entropy n₁ h]
    have hsecond := rngGetBytes_eq_read C entropy n₂ (r := r.withReader (rngRead C entropy n₁ r).2) h
    simp only [hsecond, rngRead_add]
    rfl
  | false =>
    have hnone : ∀ sz, rngGetBytes C entropy sz r = (-1, [], r) := by
      intro sz
      rw [rngGetBytes, h]
      rfl
    rw [hnone, hnone]
    simp only
    rw [hnone]
    rfl

/-- A run of requests reads their sum. -/
theorem rngRequests_eq_read (sizes : List Nat) {r : RngDevice} (h : r.rngInitialized = true) :
    (rngRequests C entropy sizes r).1.flatMap Prod.snd = (rngRead C entropy sizes.sum r).1 ∧
      (rngRequests C entropy sizes r).2 = r.withReader (rngRead C entropy sizes.sum r).2 ∧
      (rngRequests C entropy sizes r).1.map (fun o => (o.1, o.2.length)) = sizes.map fun sz => (0, sz) := by
  induction sizes generalizing r with
  | nil => exact ⟨rfl, rfl, rfl⟩
  | cons sz sizes ih =>
    obtain ⟨hbytes, hend, hlens⟩ := ih (r := r.withReader (rngRead C entropy sz r).2) h
    have hgot := rngGetBytes_eq_read C entropy sz h
    rw [rngRequests, hgot, List.sum_cons, rngRead_add]
    simp only [List.flatMap_cons, List.map_cons]
    refine ⟨?_, ?_, ?_⟩
    · rw [hbytes]
    · rw [hend]
      rfl
    · rw [hlens, rngRead, BlockSource.length_read]

/-! ## The stream of a generator -/

/-- The digests of repeated hash-and-update. -/
def rngDigest (ctx : RngCtx) (i : Nat) : Bytes 32 :=
  C.sha256 (wordBytes ((RngCtx.hashAndUpdate C entropy)^[i] ctx).state.toList)

/-- The first halves of the first digests. -/
def rngStream (ctx : RngCtx) (m : Nat) : List UInt8 :=
  (List.range m).flatMap fun i => (rngDigest C entropy ctx i).toList.take 16

theorem digestBytes_hashAndUpdate (ctx : RngCtx) :
    (ctx.hashAndUpdate C entropy).digestBytes = (C.sha256 (wordBytes ctx.state.toList)).toList := by
  rw [RngCtx.digestBytes, RngCtx.hashAndUpdate, RngCtx.update, RngCtx.digest_reseed]
  exact wordBytes_wordsAt 8 (List.Vector.toList_length _)

/-- The blocks of the generator after its first step are the halves of the digests. -/
theorem rngStream_eq_blocks (ctx : RngCtx) (m : Nat) :
    rngStream C entropy ctx m = (List.range m).flatMap fun i =>
      (List.range 16).map (digestByte ((RngCtx.hashAndUpdate C entropy)^[i] (ctx.hashAndUpdate C entropy))) := by
  unfold rngStream
  congr 1
  funext i
  have hbytes : ((RngCtx.hashAndUpdate C entropy)^[i] (ctx.hashAndUpdate C entropy)).digestBytes
      = (rngDigest C entropy ctx i).toList := by
    rw [← Function.iterate_succ_apply, Function.iterate_succ_apply', digestBytes_hashAndUpdate]
    rfl
  have htake := take_drop_digestBytes ((RngCtx.hashAndUpdate C entropy)^[i] (ctx.hashAndUpdate C entropy))
    (show 0 + 16 ≤ 32 by omega)
  simp only [List.drop_zero, Nat.zero_add] at htake
  rw [← hbytes, htake]

/-- After `rng_init`, whatever the sizes of the requests are: each succeeds with as many bytes as it asked
for, and together they are the beginning of the first halves of the digests. -/
theorem rngRequests_eq_stream (cdi : Words 8) (r : RngDevice) (sizes : List Nat) :
    let outputs := (rngRequests C entropy sizes (rngInit C entropy cdi r)).1
    outputs.map (fun o => (o.1, o.2.length)) = sizes.map (fun sz => (0, sz)) ∧
      outputs.flatMap Prod.snd
        = (rngStream C entropy (rngSeed entropy cdi r.ctx) ((sizes.sum + 15) / 16)).take sizes.sum := by
  obtain ⟨hbytes, -, hlens⟩ := rngRequests_eq_read C entropy sizes
    (show (rngInit C entropy cdi r).rngInitialized = true from rfl)
  refine ⟨hlens, ?_⟩
  rw [hbytes, rngRead, BlockSource.read_eq_items _ _ (Nat.zero_lt_succ 15), rngStream_eq_blocks,
    ← BlockSource.items_eq_take_blocks _ _ _ (by omega)]
  refine List.map_congr_left fun j _ => ?_
  rw [show 16 - (rngInit C entropy cdi r).reader.left + j = j from Nat.zero_add j]
  rfl

/-- The stream behind the bytes that a device draws. -/
def rngByte (ctx : RngCtx) (p : Nat) : UInt8 :=
  BlockSource.item (RngCtx.hashAndUpdate C entropy) digestByte 16 ctx p

/-- A request gets the bytes of one stream, from where the requests before it ended. -/
theorem rngGetBytes_eq_streamBytes (cdi : Words 8) (r : RngDevice) (sizes : List Nat) (n : Nat) :
    (rngGetBytes C entropy n (rngRequests C entropy sizes (rngInit C entropy cdi r)).2).2.1
      = (streamBytes (rngByte C entropy (rngInit C entropy cdi r).ctx) sizes.sum n).toList := by
  obtain ⟨-, hend, -⟩ := rngRequests_eq_read C entropy sizes
    (show (rngInit C entropy cdi r).rngInitialized = true from rfl)
  rw [hend, rngGetBytes_eq_read C entropy n (show ((rngInit C entropy cdi r).withReader _).rngInitialized = true
    from rfl)]
  refine (BlockSource.read_after _ _ (Nat.zero_lt_succ 15) sizes.sum n _).trans ?_
  refine List.map_congr_left fun j _ => ?_
  rw [show 16 - (rngInit C entropy cdi r).reader.left + (sizes.sum + j) = sizes.sum + j from Nat.zero_add _]
  rfl

/-- The random number generator gives out the digests of its state without repeating or skipping a byte,
and how the bytes are asked for makes no difference. -/
theorem rng_is_digest_stream (cdi : Words 8) (r : RngDevice) :
    (∀ sizes : List Nat,
      (rngRequests C entropy sizes (rngInit C entropy cdi r)).1.map (fun o => (o.1, o.2.length))
          = sizes.map (fun sz => (0, sz)) ∧
        (rngRequests C entropy sizes (rngInit C entropy cdi r)).1.flatMap Prod.snd
          = (rngStream C entropy (rngSeed entropy cdi r.ctx) ((sizes.sum + 15) / 16)).take sizes.sum) ∧
      ∀ (n₁ n₂ : Nat) (r' : RngDevice),
        (rngGetBytes C entropy (n₁ + n₂) r').2
          = ((rngGetBytes C entropy n₁ r').2.1
                ++ (rngGetBytes C entropy n₂ (rngGetBytes C entropy n₁ r').2.2).2.1,
              (rngGetBytes C entropy n₂ (rngGetBytes C entropy n₁ r').2.2).2.2) :=
  ⟨rngRequests_eq_stream C entropy cdi r, rngGetBytes_add C entropy⟩

end Rng

end TkeyFido2
