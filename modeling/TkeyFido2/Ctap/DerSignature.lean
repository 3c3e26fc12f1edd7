import TkeyFido2.Lib.Der
import TkeyFido2.Ctap.Credential

/-!
# DER signatures

`ctap_encode_der_sig` fills a buffer of 72 bytes at offsets that depend on the leading zeroes of both halves
of the signature.  For halves that are not zero the result is the DER encoding of the pair.
-/

namespace TkeyFido2

/-! ## The writes -/

/-- The number of leading zero bytes. -/
def leadingZeroes (l : List UInt8) : Nat := (l.takeWhile (· = 0)).length

/-- Whether a byte needs another in front of it to be positive. -/
def signPad (b : UInt8) : Nat := if b &&& 0x80 = 0x80 then 1 else 0

/-- `r` and `s`, big-endian. -/
def sigR (sig : Bytes 64) : List UInt8 := sig.toList.take 32
def sigS (sig : Bytes 64) : List UInt8 := sig.toList.drop 32

/-- The writes of `ctap_encode_der_sig` to its output, in order. -/
def derWrites (sig : Bytes 64) : List (Nat × List UInt8) :=
  let leadR := leadingZeroes (sigR sig)
  let leadS := leadingZeroes (sigS sig)
  let padS := signPad (sig.byte (32 + leadS))
  let padR := signPad (sig.byte leadR)
  [(0, List.replicate 72 0), (0, [0x30]), (1, [UInt8.ofNat (0x44 + padS + padR - leadS - leadR)]), (2, [0x02]),
    (3 + padR, [0]), (3, [UInt8.ofNat (0x20 + padR - leadR)]),
    (4 + padR, sig.toList.drop leadR |>.take (32 - leadR)), (36 + padR - leadR, [0x02]),
    (37 + padR + padS - leadR, [0]), (37 + padR - leadR, [UInt8.ofNat (0x20 + padS - leadS)]),
    (38 + padR + padS - leadR, (sigS sig).drop leadS)]

/-- The length that `ctap_encode_der_sig` returns. -/
def derLength (sig : Bytes 64) : Nat :=
  0x46 + signPad (sig.byte (32 + leadingZeroes (sigS sig))) + signPad (sig.byte (leadingZeroes (sigR sig)))
    - leadingZeroes (sigR sig) - leadingZeroes (sigS sig)

/-- A buffer after a list of writes. -/
def runWrites {n : Nat} (b : Bytes n) (l : List (Nat × List UInt8)) : Bytes n :=
  l.foldl (fun b w => b.patch w.1 w.2) b

/-- Whatever the buffer held before. -/
theorem ctapEncodeDerSig_eq_writes (sig : Bytes 64) (b : Bytes 72) :
    ctapEncodeDerSig sig = (runWrites b (derWrites sig)).toList.take (derLength sig) := by
  have hzero : b.patch 0 (List.replicate 72 0) = Bytes.zero 72 := by
    refine Bytes.ext_toList ?_
    rw [Bytes.toList_patch_of_le _ _ _ (by simp), List.take_zero, List.nil_append, List.drop_eq_nil_of_le
      (by simp), List.append_nil, Bytes.toList_zero]
  unfold runWrites derWrites
  simp only [List.foldl_cons, List.foldl_nil, hzero]
  rfl

/-! ## The halves -/

theorem leadingZeroes_le (l : List UInt8) : leadingZeroes l ≤ l.length :=
  (List.takeWhile_prefix _).length_le

theorem drop_leadingZeroes (l : List UInt8) : l.drop (leadingZeroes l) = l.dropWhile (· = 0) := by
  have h := List.takeWhile_append_dropWhile (p := fun b : UInt8 => decide (b = 0)) (l := l)
  calc l.drop (leadingZeroes l)
      = (l.takeWhile (· = 0) ++ l.dropWhile (· = 0)).drop (leadingZeroes l) := by rw [h]
    _ = l.dropWhile (· = 0) := List.drop_left

theorem signPad_le (b : UInt8) : signPad b ≤ 1 := by
  unfold signPad
  split
  · exact le_rfl
  · exact Nat.zero_le 1

theorem signPad_eq (b : UInt8) : signPad b = if 0x80 ≤ b then 1 else 0 := by
  have hall : ∀ i : Fin 256, signPad (UInt8.ofNat i) = if 0x80 ≤ UInt8.ofNat i then 1 else 0 := by
    decide +kernel
  have h := hall ⟨b.toNat, b.toNat_lt⟩
  rwa [UInt8.ofNat_toNat] at h

/-- The content of an INTEGER as the code lays it out. -/
theorem natContent_eq {l : List UInt8} (h : Der.unsigned l ≠ 0) :
    leadingZeroes l < l.length ∧
      Der.natContent l
        = List.replicate (signPad (l.getD (leadingZeroes l) 0)) 0 ++ l.drop (leadingZeroes l) := by
  rw [← Der.unsigned_dropWhile, ← drop_leadingZeroes] at h
  have hlt : leadingZeroes l < l.length := by
    by_contra hle
    rw [List.drop_eq_nil_of_le (Nat.not_lt.mp hle)] at h
    exact h rfl
  refine ⟨hlt, ?_⟩
  unfold Der.natContent
  rw [← drop_leadingZeroes, List.drop_eq_getElem_cons hlt, List.getD_eq_getElem?_getD,
    List.getElem?_eq_getElem hlt, Option.getD_some, signPad_eq]
  dsimp only
  by_cases hb : 0x80 ≤ l[leadingZeroes l]
  · rw [if_pos hb, if_pos hb]
    rfl
  · rw [if_neg hb, if_neg hb]
    rfl

/-! ## The result -/

@[simp] theorem length_sigR (sig : Bytes 64) : (sigR sig).length = 32 := by simp [sigR]

@[simp] theorem length_sigS (sig : Bytes 64) : (sigS sig).length = 32 := by simp [sigS]

theorem getD_sigR (sig : Bytes 64) {i : Nat} (h : i < 32) : (sigR sig).getD i 0 = sig.byte i := by
  unfold sigR Bytes.byte
  rw [List.getD_eq_getElem?_getD, List.getD_eq_getElem?_getD, List.getElem?_take_of_lt h]

theorem getD_sigS (sig : Bytes 64) (i : Nat) : (sigS sig).getD i 0 = sig.byte (32 + i) := by
  unfold sigS Bytes.byte
  rw [List.getD_eq_getElem?_getD, List.getD_eq_getElem?_getD, List.getElem?_drop]

/-- The writes one after the other.  The zero of a pad is written before the length in front of it, which
overwrites it where there is no pad. -/
theorem runWrites_der {leadR leadS padR padS : Nat} {r s : List UInt8} (len lenR lenS : UInt8)
    (hr : r.length + leadR = 32) (hs : s.length + leadS = 32) (hpadR : padR ≤ 1) (hpadS : padS ≤ 1) :
    runWrites (Bytes.zero 72) [(0, [0x30]), (1, [len]), (2, [0x02]), (3 + padR, [0]), (3, [lenR]),
        (4 + padR, r), (36 + padR - leadR, [0x02]), (37 + padR + padS - leadR, [0]),
        (37 + padR - leadR, [lenS]), (38 + padR + padS - leadR, s)]
      = Bytes.ofList 72 ([0x30, len, 0x02, lenR] ++ (List.replicate padR 0 ++ r) ++ [0x02] ++ [lenS]
          ++ (List.replicate padS 0 ++ s)) := by
  have hnil : Bytes.zero 72 = Bytes.ofList 72 [] := rfl
  simp only [runWrites, List.foldl_cons, List.foldl_nil]
  rw [hnil, Bytes.patch_ofList [] [0x30] 0 (by simp) (by simp), Bytes.patch_ofList _ [len] 0 (by simp) (by simp),
    Bytes.patch_ofList _ [0x02] 0 (by simp) (by simp), Bytes.patch_ofList_zero _ (by simp) (by omega),
    Bytes.patch_ofList _ [lenR] 0 (by simp) (by simp), Bytes.patch_ofList _ r padR (by simp) (by omega)]
  rw [Bytes.patch_ofList _ [0x02] 0 (by simp; omega) (by simp; omega),
    Bytes.patch_ofList_zero _ (by simp; omega) (by omega),
    Bytes.patch_ofList _ [lenS] 0 (by simp; omega) (by simp; omega),
    Bytes.patch_ofList _ s padS (by simp; omega) (by omega)]
  simp only [List.replicate_zero, List.nil_append, List.cons_append, List.append_assoc]

theorem ctapEncodeDerSig_eq {sig : Bytes 64} (hr : Der.unsigned (sigR sig) ≠ 0)
    (hs : Der.unsigned (sigS sig) ≠ 0) :
    ctapEncodeDerSig sig = Der.pair (Der.natContent (sigR sig)) (Der.natContent (sigS sig)) ∧
      derLength sig = (ctapEncodeDerSig sig).length := by
  obtain ⟨hltR, hcR⟩ := natContent_eq hr
  obtain ⟨hltS, hcS⟩ := natContent_eq hs
  rw [length_sigR] at hltR
  rw [length_sigS] at hltS
  rw [getD_sigR sig hltR] at hcR
  rw [getD_sigS] at hcS
  have hR : (sig.toList.drop (leadingZeroes (sigR sig))).take (32 - leadingZeroes (sigR sig))
      = (sigR sig).drop (leadingZeroes (sigR sig)) := List.drop_take.symm
  have hlenR : ((sigR sig).drop (leadingZeroes (sigR sig))).length + leadingZeroes (sigR sig) = 32 := by
    rw [List.length_drop, length_sigR]
    omega
  have hlenS : ((sigS sig).drop (leadingZeroes (sigS sig))).length + leadingZeroes (sigS sig) = 32 := by
    rw [List.length_drop, length_sigS]
    omega
  have hwrites : ctapEncodeDerSig sig
      = (runWrites (Bytes.zero 72) (derWrites sig).tail).toList.take (derLength sig) := rfl
  unfold derWrites at hwrites
  unfold derLength at hwrites ⊢
  dsimp only [List.tail_cons] at hwrites
  have hpadR := signPad_le (sig.byte (leadingZeroes (sigR sig)))
  have hpadS := signPad_le (sig.byte (32 + leadingZeroes (sigS sig)))
  rw [hR] at hwrites
  generalize (sigR sig).drop (leadingZeroes (sigR sig)) = r at *
  generalize (sigS sig).drop (leadingZeroes (sigS sig)) = s at *
  generalize signPad (sig.byte (leadingZeroes (sigR sig))) = padR at *
  generalize signPad (sig.byte (32 + leadingZeroes (sigS sig))) = padS at *
  generalize leadingZeroes (sigR sig) = leadR at *
  generalize leadingZeroes (sigS sig) = leadS at *
  rw [runWrites_der _ _ _ hlenR hlenS hpadR hpadS, Bytes.toList_ofList_of_le (by simp; omega),
    List.take_left' (by simp; omega)] at hwrites
  rw [hwrites, hcR, hcS]
  refine ⟨?_, by simp; omega⟩
  unfold Der.pair Der.element
  simp only [List.length_append, List.length_cons, List.length_replicate, List.cons_append, List.nil_append,
    List.append_assoc]
  have h₁ : 0x44 + padS + padR - leadS - leadR = padR + (r.length + (padS + s.length + 1 + 1)) + 1 + 1 := by omega
  have h₂ : 0x20 + padR - leadR = padR + r.length := by omega
  have h₃ : 0x20 + padS - leadS = padS + s.length := by omega
  rw [h₁, h₂, h₃]

theorem length_natContent {l : List UInt8} (h : Der.unsigned l ≠ 0) (hlen : l.length = 32) :
    1 ≤ (Der.natContent l).length ∧ (Der.natContent l).length ≤ 33 := by
  obtain ⟨hlt, heq⟩ := natContent_eq h
  have hpad := signPad_le (l.getD (leadingZeroes l) 0)
  rw [heq, List.length_append, List.length_replicate, List.length_drop]
  omega

/-- Every write falls into the output. -/
theorem derWrites_inside {sig : Bytes 64} (hr : Der.unsigned (sigR sig) ≠ 0)
    (hs : Der.unsigned (sigS sig) ≠ 0) : ∀ x ∈ derWrites sig, x.1 + x.2.length ≤ 72 := by
  have hltR := (natContent_eq hr).1
  have hltS := (natContent_eq hs).1
  rw [length_sigR] at hltR
  rw [length_sigS] at hltS
  have hpadR := signPad_le (sig.byte (leadingZeroes (sigR sig)))
  have hpadS := signPad_le (sig.byte (32 + leadingZeroes (sigS sig)))
  unfold derWrites
  simp only [List.forall_mem_cons, List.length_replicate, List.length_cons, List.length_nil, List.length_take,
    List.length_drop, length_sigS, List.Vector.toList_length]
  refine ⟨by omega, by omega, by omega, by omega, by omega, by omega, by omega, by omega, by omega, by omega,
    by omega, by simp⟩

/-- The signature in DER: it reads as the two numbers and is the only encoding that does, without a sign and
without a superfluous zero. -/
theorem ctapEncodeDerSig_der (sig : Bytes 64) (hr : Der.unsigned (sigR sig) ≠ 0)
    (hs : Der.unsigned (sigS sig) ≠ 0) :
    Der.readPair (ctapEncodeDerSig sig) = some (↑(Der.unsigned (sigR sig)), ↑(Der.unsigned (sigS sig))) ∧
    (∀ l : List UInt8, Der.readPair l = some (↑(Der.unsigned (sigR sig)), ↑(Der.unsigned (sigS sig))) →
      l = ctapEncodeDerSig sig) ∧
    (∃ a b : List UInt8, ctapEncodeDerSig sig = Der.pair a b ∧ Der.Minimal a ∧ Der.Minimal b ∧
      0 ≤ Der.value a ∧ 0 ≤ Der.value b) ∧
    derLength sig = (ctapEncodeDerSig sig).length ∧ 8 ≤ derLength sig ∧ derLength sig ≤ 72 ∧
    derLength sig = 2 + ((ctapEncodeDerSig sig).getD 1 0).toNat ∧
    (∀ b : Bytes 72, ctapEncodeDerSig sig = (runWrites b (derWrites sig)).toList.take (derLength sig)) ∧
    ∀ x ∈ derWrites sig, x.1 + x.2.length ≤ 72 := by
  obtain ⟨heq, hlen⟩ := ctapEncodeDerSig_eq hr hs
  obtain ⟨hr1, hr33⟩ := length_natContent hr (length_sigR sig)
  obtain ⟨hs1, hs33⟩ := length_natContent hs (length_sigS sig)
  have hread : Der.readPair (ctapEncodeDerSig sig)
      = some (↑(Der.unsigned (sigR sig)), ↑(Der.unsigned (sigS sig))) := by
    rw [heq, Der.readPair_pair (by omega) (Der.minimal_natContent _) (Der.minimal_natContent _),
      Der.value_natContent, Der.value_natContent]
  have hsize : derLength sig
      = (Der.natContent (sigR sig)).length + (Der.natContent (sigS sig)).length + 6 := by
    rw [hlen, heq, Der.pair]
    simp only [Der.length_element, List.length_append]
    omega
  refine ⟨hread, fun l hl => Der.readPair_injective hl hread,
    ⟨_, _, heq, Der.minimal_natContent _, Der.minimal_natContent _, ?_, ?_⟩, hlen, by omega, by omega, ?_,
    ctapEncodeDerSig_eq_writes sig, derWrites_inside hr hs⟩
  · rw [Der.value_natContent]
    exact Int.natCast_nonneg _
  · rw [Der.value_natContent]
    exact Int.natCast_nonneg _
  · rw [hsize, heq]
    show _ = 2 + (UInt8.ofNat (Der.element 0x02 (Der.natContent (sigR sig))
      ++ Der.element 0x02 (Der.natContent (sigS sig))).length).toNat
    rw [UInt8.toNat_ofNat', List.length_append, Der.length_element, Der.length_element]
    omega

/-- A short `r` and an `s` with its first bit set. -/
theorem ctapEncodeDerSig_der_short :
    Der.readPair (ctapEncodeDerSig ⟨List.replicate 31 0 ++ [1] ++ List.replicate 32 0x80, by simp⟩)
      = some (1, 0x80 * ((256 ^ 32 - 1) / 255)) := by
  have h := (ctapEncodeDerSig_der ⟨List.replicate 31 0 ++ [1] ++ List.replicate 32 0x80, by simp⟩
    (by decide) (by decide)).1
  exact h

end TkeyFido2
