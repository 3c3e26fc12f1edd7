import TkeyFido2.Lib.Sha2

/-!
# The SHA-256 of the device

`sha256.c`.  A context collects bytes into a block of 64 and is transformed when the block is full; the
message comes in any number of pieces.  Against the standard: the schedule and the rounds of
`sha256_transform`, and the padding that `sha256_final` writes into the collected block.
-/

namespace TkeyFido2

namespace Sha256

/-! ## Macros and constants -/

def rotright (a b : UInt32) : UInt32 := (a >>> b) ||| (a <<< (32 - b))

def ch (x y z : UInt32) : UInt32 := (x &&& y) ^^^ (~~~x &&& z)
def maj (x y z : UInt32) : UInt32 := (x &&& y) ^^^ (x &&& z) ^^^ (y &&& z)
def ep0 (x : UInt32) : UInt32 := rotright x 2 ^^^ rotright x 13 ^^^ rotright x 22
def ep1 (x : UInt32) : UInt32 := rotright x 6 ^^^ rotright x 11 ^^^ rotright x 25
def sig0 (x : UInt32) : UInt32 := rotright x 7 ^^^ rotright x 18 ^^^ (x >>> 3)
def sig1 (x : UInt32) : UInt32 := rotright x 17 ^^^ rotright x 19 ^^^ (x >>> 10)

def k : List UInt32 :=
  [0x428a2f98, 0x71374491, 0xb5c0fbcf, 0xe9b5dba5, 0x3956c25b, 0x59f111f1, 0x923f82a4, 0xab1c5ed5,
    0xd807aa98, 0x12835b01, 0x243185be, 0x550c7dc3, 0x72be5d74, 0x80deb1fe, 0x9bdc06a7, 0xc19bf174,
    0xe49b69c1, 0xefbe4786, 0x0fc19dc6, 0x240ca1cc, 0x2de92c6f, 0x4a7484aa, 0x5cb0a9dc, 0x76f988da,
    0x983e5152, 0xa831c66d, 0xb00327c8, 0xbf597fc7, 0xc6e00bf3, 0xd5a79147, 0x06ca6351, 0x14292967,
    0x27b70a85, 0x2e1b2138, 0x4d2c6dfc, 0x53380d13, 0x650a7354, 0x766a0abb, 0x81c2c92e, 0x92722c85,
    0xa2bfe8a1, 0xa81a664b, 0xc24b8b70, 0xc76c51a3, 0xd192e819, 0xd6990624, 0xf40e3585, 0x106aa070,
    0x19a4c116, 0x1e376c08, 0x2748774c, 0x34b0bcb5, 0x391c0cb3, 0x4ed8aa4a, 0x5b9cca4f, 0x682e6ff3,
    0x748f82ee, 0x78a5636f, 0x84c87814, 0x8cc70208, 0x90befffa, 0xa4506ceb, 0xbef9a3f7, 0xc67178f2]

end Sha256

open Sha256

/-! ## SHA256_CTX -/

structure Sha256Ctx where
  data : Bytes 64
  datalen : Nat
  bitlen : UInt64
  state : List.Vector UInt32 8

/-- The first sixteen words of `m`. -/
def sha256Word (data : List UInt8) (i : Nat) : UInt32 :=
  ((data.getD (4 * i) 0).toUInt32 <<< 24) ||| ((data.getD (4 * i + 1) 0).toUInt32 <<< 16)
    ||| ((data.getD (4 * i + 2) 0).toUInt32 <<< 8) ||| (data.getD (4 * i + 3) 0).toUInt32

/-- The next word of `m`. -/
def sha256Extend (m : List UInt32) (i : Nat) : List UInt32 :=
  m ++ [sig1 (m.getD (i - 2) 0) + m.getD (i - 7) 0 + sig0 (m.getD (i - 15) 0) + m.getD (i - 16) 0]

/-- The array `m`. -/
def sha256Words (data : List UInt8) : List UInt32 :=
  (List.range' 16 48).foldl sha256Extend ((List.range 16).map (sha256Word data))

/-- A round on the variables `a` to `h`. -/
def sha256Round (m : List UInt32) (v : Sha2.Work) (i : Nat) : Sha2.Work :=
  let t1 := v.h + ep1 v.e + ch v.e v.f v.g + k.getD i 0 + m.getD i 0
  let t2 := ep0 v.a + maj v.a v.b v.c
  { h := v.g, g := v.f, f := v.e, e := v.d + t1, d := v.c, c := v.b, b := v.a, a := t1 + t2 }

/-- `sha256_transform`. -/
def sha256Transform (ctx : Sha256Ctx) (data : List UInt8) : Sha256Ctx :=
  let s := Sha2.workOf ctx.state
  let v := (List.range 64).foldl (sha256Round (sha256Words data)) s
  { ctx with
    state := Sha2.hashValue (s.a + v.a) (s.b + v.b) (s.c + v.c) (s.d + v.d) (s.e + v.e) (s.f + v.f) (s.g + v.g)
      (s.h + v.h) }

/-- `sha256_init`. -/
def sha256Init (ctx : Sha256Ctx) : Sha256Ctx :=
  { ctx with
    datalen := 0
    bitlen := 0
    state := Sha2.hashValue 0x6a09e667 0xbb67ae85 0x3c6ef372 0xa54ff53a 0x510e527f 0x9b05688c 0x1f83d9ab
      0x5be0cd19 }

/-- One byte of `sha256_update`. -/
def sha256Push (ctx : Sha256Ctx) (byte : UInt8) : Sha256Ctx :=
  let ctx := { ctx with data := ctx.data.patch ctx.datalen [byte], datalen := ctx.datalen + 1 }
  if ctx.datalen = 64 then
    let ctx := sha256Transform ctx ctx.data.toList
    { ctx with bitlen := ctx.bitlen + 512, datalen := 0 }
  else ctx

/-- `sha256_update`. -/
def sha256Update (ctx : Sha256Ctx) (data : List UInt8) : Sha256Ctx := data.foldl sha256Push ctx

/-- The padding of `sha256_final`, as far as the length; a full block is transformed in between. -/
def sha256Pad (ctx : Sha256Ctx) : Sha256Ctx :=
  if ctx.datalen < 56 then
    { ctx with data := ctx.data.patch ctx.datalen (0x80 :: List.replicate (55 - ctx.datalen) 0) }
  else
    let ctx :=
      { ctx with data := ctx.data.patch ctx.datalen (0x80 :: List.replicate (63 - ctx.datalen) 0) }
    let ctx := sha256Transform ctx ctx.data.toList
    { ctx with data := ctx.data.patch 0 (List.replicate 56 0) }

/-- `bitlen` as the end of the block. -/
def sha256Bitlen (bitlen : UInt64) : List UInt8 :=
  [(bitlen >>> 56).toUInt8, (bitlen >>> 48).toUInt8, (bitlen >>> 40).toUInt8, (bitlen >>> 32).toUInt8,
    (bitlen >>> 24).toUInt8, (bitlen >>> 16).toUInt8, (bitlen >>> 8).toUInt8, bitlen.toUInt8]

/-- A word of the state in the output. -/
def sha256Out (w : UInt32) : List UInt8 :=
  [((w >>> 24) &&& 0xff).toUInt8, ((w >>> 16) &&& 0xff).toUInt8, ((w >>> 8) &&& 0xff).toUInt8,
    (w &&& 0xff).toUInt8]

/-- `sha256_final`: the context and the hash. -/
def sha256Final (ctx : Sha256Ctx) : Sha256Ctx × Bytes 32 :=
  let ctx := sha256Pad ctx
  let bitlen := ctx.bitlen + UInt64.ofNat (ctx.datalen * 8)
  let ctx := { ctx with bitlen := bitlen, data := ctx.data.patch 56 (sha256Bitlen bitlen) }
  let ctx := sha256Transform ctx ctx.data.toList
  (ctx, Bytes.ofList 32 (ctx.state.toList.flatMap sha256Out))

/-! ## The transformation compresses a block -/

theorem ep0_eq : ep0 = Sha2.bigSigma0 := rfl
theorem ep1_eq : ep1 = Sha2.bigSigma1 := rfl
theorem sig0_eq : sig0 = Sha2.smallSigma0 := rfl
theorem sig1_eq : sig1 = Sha2.smallSigma1 := rfl
theorem k_eq : k = Sha2.roundConstants := rfl

/-- Four bytes that do not overlap. -/
theorem or_four_bytes (a : Nat) {b c d : Nat} (hb : b < 256) (hc : c < 256) (hd : d < 256) :
    a * 16777216 ||| b * 65536 ||| c * 256 ||| d = a * 16777216 + b * 65536 + c * 256 + d := by
  have h₁ : a * 16777216 ||| b * 65536 = a * 16777216 + b * 65536 := by
    rw [show a * 16777216 = 2 ^ 24 * a by omega]
    exact (Nat.two_pow_add_eq_or_of_lt (by omega) a).symm
  have h₂ : (a * 16777216 + b * 65536) ||| c * 256 = a * 16777216 + b * 65536 + c * 256 := by
    rw [show a * 16777216 + b * 65536 = 2 ^ 16 * (a * 256 + b) by omega]
    exact (Nat.two_pow_add_eq_or_of_lt (by omega) _).symm
  have h₃ : (a * 16777216 + b * 65536 + c * 256) ||| d = a * 16777216 + b * 65536 + c * 256 + d := by
    rw [show a * 16777216 + b * 65536 + c * 256 = 2 ^ 8 * (a * 65536 + b * 256 + c) by omega]
    exact (Nat.two_pow_add_eq_or_of_lt hd _).symm
  rw [h₁, h₂, h₃]

theorem toNat_byte_shiftLeft (x : UInt8) {s : Nat} (hs : s ≤ 24) :
    (x.toUInt32 <<< UInt32.ofNat s).toNat = x.toNat * 2 ^ s := by
  have hx := x.toNat_lt
  have hpow : 2 ^ s ≤ 2 ^ 24 := Nat.pow_le_pow_right (by omega) hs
  have hprod : x.toNat * 2 ^ s < 2 ^ 32 :=
    calc x.toNat * 2 ^ s ≤ x.toNat * 2 ^ 24 := Nat.mul_le_mul_left _ hpow
      _ < 2 ^ 32 := by omega
  have hs' : s % 2 ^ 32 % 32 = s := by omega
  rw [UInt32.toNat_shiftLeft, UInt8.toNat_toUInt32, UInt32.toNat_ofNat', hs', Nat.shiftLeft_eq,
    Nat.mod_eq_of_lt hprod]

theorem sha256Word_eq (data : List UInt8) (i : Nat) : sha256Word data i = Sha2.blockWord data i := by
  have ha := (data.getD (4 * i) 0).toNat_lt
  have hb := (data.getD (4 * i + 1) 0).toNat_lt
  have hc := (data.getD (4 * i + 2) 0).toNat_lt
  have hd := (data.getD (4 * i + 3) 0).toNat_lt
  have h₂₄ := toNat_byte_shiftLeft (data.getD (4 * i) 0) (show 24 ≤ 24 by omega)
  have h₁₆ := toNat_byte_shiftLeft (data.getD (4 * i + 1) 0) (show 16 ≤ 24 by omega)
  have h₈ := toNat_byte_shiftLeft (data.getD (4 * i + 2) 0) (show 8 ≤ 24 by omega)
  have hor := or_four_bytes (data.getD (4 * i) 0).toNat hb hc hd
  apply UInt32.toNat_inj.mp
  calc (sha256Word data i).toNat
      = ((data.getD (4 * i) 0).toUInt32 <<< UInt32.ofNat 24).toNat
          ||| ((data.getD (4 * i + 1) 0).toUInt32 <<< UInt32.ofNat 16).toNat
          ||| ((data.getD (4 * i + 2) 0).toUInt32 <<< UInt32.ofNat 8).toNat
          ||| (data.getD (4 * i + 3) 0).toNat := rfl
    _ = (data.getD (4 * i) 0).toNat * 16777216 + (data.getD (4 * i + 1) 0).toNat * 65536
          + (data.getD (4 * i + 2) 0).toNat * 256 + (data.getD (4 * i + 3) 0).toNat := by
        rw [h₂₄, h₁₆, h₈]
        exact hor
    _ = (Sha2.blockWord data i).toNat := by
        rw [Sha2.blockWord, UInt32.toNat_ofNat', Nat.mod_eq_of_lt (by omega)]

/-- The low byte of a shifted word. -/
theorem toUInt8_shiftRight (w : UInt32) {s : Nat} (hs : s < 32) :
    ((w >>> UInt32.ofNat s) &&& 0xff).toUInt8 = UInt8.ofNat (w.toNat / 2 ^ s) := by
  have hs' : s % 2 ^ 32 % 32 = s := by omega
  apply UInt8.toNat_inj.mp
  rw [UInt32.toNat_toUInt8, UInt32.toNat_and, UInt32.toNat_shiftRight, UInt32.toNat_ofNat', hs',
    Nat.shiftRight_eq_div_pow, UInt8.toNat_ofNat', show UInt32.toNat 0xff = 2 ^ 8 - 1 from rfl,
    Nat.and_two_pow_sub_one_eq_mod, Nat.mod_mod]

theorem sha256Out_eq (w : UInt32) : sha256Out w = be32 w := by
  have h₂₄ := toUInt8_shiftRight w (show 24 < 32 by omega)
  have h₁₆ := toUInt8_shiftRight w (show 16 < 32 by omega)
  have h₈ := toUInt8_shiftRight w (show 8 < 32 by omega)
  have h₀ := toUInt8_shiftRight w (show 0 < 32 by omega)
  have hzero : w >>> UInt32.ofNat 0 = w := UInt32.shiftRight_zero
  rw [hzero] at h₀
  exact List.cons_eq_cons.mpr ⟨h₂₄, List.cons_eq_cons.mpr ⟨h₁₆, List.cons_eq_cons.mpr ⟨h₈,
    List.cons_eq_cons.mpr ⟨h₀.trans (by rw [Nat.pow_zero, Nat.div_one]), rfl⟩⟩⟩⟩

/-- A byte of a 64-bit count that may have wrapped. -/
theorem toUInt8_shiftRight64 (n : Nat) {s : Nat} (hs : s ≤ 56) :
    (UInt64.ofNat n >>> UInt64.ofNat s).toUInt8 = UInt8.ofNat (n / 2 ^ s) := by
  have hs' : s % 2 ^ 64 % 64 = s := by omega
  apply UInt8.toNat_inj.mp
  rw [UInt64.toNat_toUInt8, UInt64.toNat_shiftRight, UInt64.toNat_ofNat', UInt64.toNat_ofNat', hs',
    Nat.shiftRight_eq_div_pow, UInt8.toNat_ofNat']
  have hpow : 2 ^ 64 = 2 ^ s * 2 ^ (64 - s) := by rw [← Nat.pow_add, Nat.add_sub_cancel' (by omega)]
  have hdvd : 2 ^ 8 ∣ 2 ^ (64 - s) := Nat.pow_dvd_pow 2 (by omega)
  rw [hpow, Nat.mod_mul_right_div_self, Nat.mod_mod_of_dvd _ hdvd]

theorem sha256Bitlen_eq (n : Nat) : sha256Bitlen (UInt64.ofNat n) = Sha2.be64 n := by
  have h := fun s (hs : s ≤ 56) => toUInt8_shiftRight64 n hs
  have hlast : (UInt64.ofNat n).toUInt8 = UInt8.ofNat n := by
    have h₀ := h 0 (by omega)
    rwa [Nat.pow_zero, Nat.div_one, show UInt64.ofNat n >>> UInt64.ofNat 0 = UInt64.ofNat n from
      UInt64.shiftRight_zero] at h₀
  unfold sha256Bitlen Sha2.be64
  rw [hlast]
  exact congrArg₂ List.cons (h 56 (by omega)) <| congrArg₂ List.cons (h 48 (by omega)) <|
    congrArg₂ List.cons (h 40 (by omega)) <| congrArg₂ List.cons (h 32 (by omega)) <|
    congrArg₂ List.cons (h 24 (by omega)) <| congrArg₂ List.cons (h 16 (by omega)) <|
    congrArg₂ List.cons (h 8 (by omega)) rfl

/-- The loop behind the sixteenth word fills the schedule. -/
theorem sha256Extend_schedule (data : List UInt8) (n : Nat) :
    ((List.range' 16 n).foldl sha256Extend ((List.range 16).map (sha256Word data)))
      = (List.range (16 + n)).map (Sha2.schedule data) := by
  induction n with
  | zero =>
    refine List.map_congr_left fun t ht => ?_
    rw [sha256Word_eq, Sha2.schedule_of_lt data (List.mem_range.mp ht)]
  | succ n ih =>
    rw [List.range'_concat, List.foldl_append, ih, Nat.one_mul, ← Nat.add_assoc, List.range_succ,
      List.map_append]
    have hget : ∀ t, t < 16 + n → ((List.range (16 + n)).map (Sha2.schedule data)).getD t 0 = Sha2.schedule data t := by
      intro t ht
      rw [List.getD_eq_getElem?_getD, List.getElem?_map, List.getElem?_range ht]
      rfl
    show sha256Extend _ (16 + n) = _
    unfold sha256Extend
    rw [hget _ (by omega), hget _ (by omega), hget _ (by omega), hget _ (by omega), List.map_singleton,
      Sha2.schedule_of_le data (show 16 ≤ 16 + n by omega), sig0_eq, sig1_eq]

theorem sha256Words_getD (data : List UInt8) {t : Nat} (h : t < 64) :
    (sha256Words data).getD t 0 = Sha2.schedule data t := by
  rw [sha256Words, sha256Extend_schedule, List.getD_eq_getElem?_getD, List.getElem?_map, List.getElem?_range h]
  rfl

/-- `sha256_transform` is the compression of a block. -/
theorem sha256Transform_eq (ctx : Sha256Ctx) (data : List UInt8) :
    sha256Transform ctx data = { ctx with state := Sha2.compress ctx.state data } := by
  have hround : ∀ v : Sha2.Work, (List.range 64).foldl (sha256Round (sha256Words data)) v
      = (List.range 64).foldl
          (fun v t => Sha2.round (Sha2.roundConstants.getD t 0) (Sha2.schedule data t) v) v := by
    intro v
    refine List.foldl_ext _ _ v fun v t ht => ?_
    rw [sha256Round, sha256Words_getD data (List.mem_range.mp ht), k_eq, ep0_eq, ep1_eq]
    rfl
  unfold sha256Transform Sha2.compress
  simp only [hround]
  rfl

/-! ## The message in a context -/

/-- The context has taken in `msg`: the whole blocks are in the state, the rest in the buffer. -/
structure Sha256Ctx.Has (ctx : Sha256Ctx) (msg : List UInt8) : Prop where
  absorbed : BlockHash.Absorbed Sha2.compress 64 Sha2.initialHash ctx.state
    (ctx.data.toList.take ctx.datalen) msg
  datalen_lt : ctx.datalen < 64
  datalen_le : ctx.datalen ≤ msg.length
  bitlen_eq : ctx.bitlen = UInt64.ofNat (8 * (msg.length - ctx.datalen))

variable {ctx : Sha256Ctx} {msg : List UInt8}

theorem Sha256Ctx.Has.length_buffer (h : ctx.Has msg) : (ctx.data.toList.take ctx.datalen).length = ctx.datalen := by
  have hlt := h.datalen_lt
  rw [List.length_take, List.Vector.toList_length]
  omega

theorem sha256Init_has (ctx : Sha256Ctx) : (sha256Init ctx).Has [] :=
  ⟨.nil (by omega) Sha2.initialHash, Nat.zero_lt_succ 63, le_refl 0, rfl⟩

theorem sha256Push_has (h : ctx.Has msg) (b : UInt8) : (sha256Push ctx b).Has (msg ++ [b]) := by
  have hlt := h.datalen_lt
  have hle := h.datalen_le
  have htake : (ctx.data.patch ctx.datalen [b]).toList.take (ctx.datalen + 1)
      = ctx.data.toList.take ctx.datalen ++ [b] := Bytes.take_patch ctx.data ctx.datalen [b] hlt
  have hlen := h.length_buffer
  unfold sha256Push
  by_cases hfull : ctx.datalen + 1 = 64
  · simp only [if_pos hfull, sha256Transform_eq]
    have hall : (ctx.data.patch ctx.datalen [b]).toList = ctx.data.toList.take ctx.datalen ++ [b] := by
      rw [← htake, List.take_of_length_le (by rw [List.Vector.toList_length]; omega)]
    refine ⟨?_, Nat.zero_lt_succ 63, Nat.zero_le _, ?_⟩
    · rw [hall]
      exact h.absorbed.complete b (by omega)
    · show ctx.bitlen + 512 = _
      rw [h.bitlen_eq, show (512 : UInt64) = UInt64.ofNat 512 from rfl, ← UInt64.ofNat_add, List.length_append]
      congr 1
      show _ = 8 * (msg.length + 1 - 0)
      omega
  · simp only [if_neg hfull]
    refine ⟨?_, by show ctx.datalen + 1 < 64; omega, ?_, ?_⟩
    · show BlockHash.Absorbed _ _ _ _ ((ctx.data.patch ctx.datalen [b]).toList.take (ctx.datalen + 1)) _
      rw [htake]
      exact h.absorbed.push b (by omega)
    · rw [List.length_append]
      exact Nat.succ_le_succ hle
    · show ctx.bitlen = UInt64.ofNat (8 * ((msg ++ [b]).length - (ctx.datalen + 1)))
      rw [h.bitlen_eq, List.length_append]
      congr 2
      exact (Nat.add_sub_add_right msg.length 1 ctx.datalen).symm

theorem sha256Update_has (h : ctx.Has msg) (data : List UInt8) : (sha256Update ctx data).Has (msg ++ data) := by
  induction data generalizing ctx msg with
  | nil => rwa [List.append_nil]
  | cons b data ih =>
    have hstep := ih (sha256Push_has h b)
    rwa [List.append_assoc] at hstep

/-! ## Padding -/

/-- After the padding the block lacks only the length. -/
theorem sha256Pad_chain (h : ctx.Has msg) :
    BlockHash.chain Sha2.compress 64 Sha2.initialHash (msg ++ Sha2.padding msg.length)
      = Sha2.compress (sha256Pad ctx).state
          ((sha256Pad ctx).data.toList.take 56 ++ Sha2.be64 (8 * msg.length)) := by
  have hlt := h.datalen_lt
  have hlen := h.length_buffer
  have hmod : ctx.datalen = msg.length % 64 := hlen.symm.trans h.absorbed.length_buf
  rw [← h.absorbed.chain_append, Sha2.padding, ← hmod]
  unfold sha256Pad
  by_cases hshort : ctx.datalen < 56
  · have htake : (ctx.data.patch ctx.datalen (0x80 :: List.replicate (55 - ctx.datalen) 0)).toList.take 56
        = ctx.data.toList.take ctx.datalen ++ 0x80 :: List.replicate (55 - ctx.datalen) 0 := by
      rw [← Bytes.take_patch _ _ _ (by rw [List.length_cons, List.length_replicate]; omega)]
      congr 1
      rw [List.length_cons, List.length_replicate]
      omega
    simp only [if_pos hshort]
    rw [htake, show (119 - ctx.datalen) % 64 = 55 - ctx.datalen by omega, List.append_assoc,
      BlockHash.chain_block _ (by omega)]
    rw [List.length_append, List.length_append, hlen, List.length_cons, List.length_replicate]
    show ctx.datalen + (55 - ctx.datalen + 1 + 8) = 64
    omega
  · have hfirst : (ctx.data.patch ctx.datalen (0x80 :: List.replicate (63 - ctx.datalen) 0)).toList
        = ctx.data.toList.take ctx.datalen ++ 0x80 :: List.replicate (63 - ctx.datalen) 0 := by
      rw [← Bytes.take_patch _ _ _ (by rw [List.length_cons, List.length_replicate]; omega),
        List.take_of_length_le]
      rw [List.Vector.toList_length, List.length_cons, List.length_replicate]
      omega
    have hblock : (ctx.data.toList.take ctx.datalen ++ 0x80 :: List.replicate (63 - ctx.datalen) 0).length
        = 64 := by
      rw [List.length_append, hlen, List.length_cons, List.length_replicate]
      omega
    have hzeros : (119 - ctx.datalen) % 64 = 63 - ctx.datalen + 56 := by omega
    have hsecond : ∀ data : Bytes 64, (data.patch 0 (List.replicate 56 0)).toList.take 56
        = List.replicate 56 0 := by
      intro data
      exact Bytes.take_patch data 0 (List.replicate 56 0) (by decide)
    simp only [if_neg hshort, sha256Transform_eq]
    rw [hsecond, hfirst, hzeros, ← List.replicate_append_replicate, ← List.cons_append, List.append_assoc,
      ← List.append_assoc, BlockHash.chain_cons_block _ (by omega) _ hblock,
      BlockHash.chain_block _ (by omega)]
    rfl

theorem sha256Pad_bitlen (ctx : Sha256Ctx) :
    (sha256Pad ctx).bitlen = ctx.bitlen ∧ (sha256Pad ctx).datalen = ctx.datalen := by
  unfold sha256Pad
  split
  · exact ⟨rfl, rfl⟩
  · simp only [sha256Transform_eq, and_self]

/-- `sha256_final` gives the hash of the message. -/
theorem sha256Final_eq (h : ctx.Has msg) : (sha256Final ctx).2 = Sha2.sha256 msg := by
  obtain ⟨hbitlen, hdatalen⟩ := sha256Pad_bitlen ctx
  have hle := h.datalen_le
  have hcount : (sha256Pad ctx).bitlen + UInt64.ofNat ((sha256Pad ctx).datalen * 8)
      = UInt64.ofNat (8 * msg.length) := by
    rw [hbitlen, hdatalen, h.bitlen_eq, ← UInt64.ofNat_add]
    congr 1
    omega
  have hblock : ((sha256Pad ctx).data.patch 56 (Sha2.be64 (8 * msg.length))).toList
      = (sha256Pad ctx).data.toList.take 56 ++ Sha2.be64 (8 * msg.length) := by
    have htake := Bytes.take_patch (sha256Pad ctx).data 56 (Sha2.be64 (8 * msg.length)) (le_refl 64)
    rwa [List.take_of_length_le] at htake
    exact (List.Vector.toList_length _).le
  unfold sha256Final Sha2.sha256 Sha2.digestOf
  simp only [hcount, sha256Bitlen_eq, hblock, sha256Transform_eq, sha256Pad_chain h]
  congr 1
  exact List.flatMap_congr fun w _ => sha256Out_eq w

/-- `crypto_sha256`: a context that nothing else uses. -/
def cryptoSha256 (ctx : Sha256Ctx) (data : List UInt8) : Bytes 32 :=
  (sha256Final (sha256Update (sha256Init ctx) data)).2

theorem cryptoSha256_eq (ctx : Sha256Ctx) (data : List UInt8) : cryptoSha256 ctx data = Sha2.sha256 data :=
  sha256Final_eq (sha256Update_has (sha256Init_has ctx) data)

end TkeyFido2
