import TkeyFido2.Ctap.Credential
import TkeyFido2.Lib.Der
import TkeyFido2.Lib.ShortWeierstrass

/-!
# Scalars and points of P-256

The part of micro-ecc that says which private and which public keys there are.
-/

namespace TkeyFido2

/-! ## Scalars -/

/-- The number that a private key stands for. -/
def scalarOf (k : Bytes 32) : Nat := Der.unsigned k.toList

/-- `curve_secp256r1.n`. -/
def groupOrder : Nat := 0xFFFFFFFF00000000FFFFFFFFFFFFFFFFBCE6FAADA7179E84F3B9CAC2FC632551

theorem memcmpLt_iff {l l' : List UInt8} (hlen : l.length = l'.length) :
    memcmpLt l l' = true ↔ Der.unsigned l < Der.unsigned l' := by
  induction l generalizing l' with
  | nil =>
    obtain rfl := List.length_eq_zero_iff.mp hlen.symm
    simp [memcmpLt]
  | cons a l ih =>
    obtain ⟨b, l', rfl⟩ := List.exists_cons_of_length_eq_add_one hlen.symm
    have hlen : l.length = l'.length := Nat.succ.inj hlen
    unfold memcmpLt
    rw [Der.unsigned_cons_lt hlen, ← ih hlen]
    by_cases hab : a = b
    · subst hab
      simp
    · simp [hab]

theorem unsigned_secp256r1N : Der.unsigned secp256r1N = groupOrder := by decide +kernel

theorem isValidScalar_iff {k : Bytes 32} :
    isValidScalar k = true ↔ 1 ≤ scalarOf k ∧ scalarOf k ≤ groupOrder - 1 := by
  have hlen : k.toList.length = secp256r1N.length := List.Vector.toList_length k
  have hany : k.toList.any (· ≠ 0) = true ↔ scalarOf k ≠ 0 := by
    rw [scalarOf, Ne, Der.unsigned_eq_zero]
    simp
  unfold isValidScalar
  rw [Bool.and_eq_true, hany, memcmpLt_iff hlen, unsigned_secp256r1N]
  unfold scalarOf groupOrder
  omega

/-! ## Points -/

/-- `curve_secp256r1`: the prime, the coefficient -3 and the constant. -/
def secp256r1 : ShortWeierstrass where
  p := 0xFFFFFFFF00000001000000000000000000000000FFFFFFFFFFFFFFFFFFFFFFFF
  a := 0xFFFFFFFF00000001000000000000000000000000FFFFFFFFFFFFFFFFFFFFFFFC
  b := 0x5AC635D8AA3A93E7B3EBBD55769886BC651D06B0CC53B0F63BCE3C3E27D2604B

/-- `x_side_default`. -/
def xSide (x : Nat) : Nat :=
  ((x * x % secp256r1.p + secp256r1.a) % secp256r1.p * x % secp256r1.p + secp256r1.b) % secp256r1.p

/-- `uECC_valid_point`. -/
def validPoint (x y : Nat) : Bool :=
  if x = 0 ∧ y = 0 then false
  else if secp256r1.p ≤ x ∨ secp256r1.p ≤ y then false
  else y * y % secp256r1.p = xSide x

/-- `uECC_valid_public_key`. -/
def validPublicKey (pub : Bytes 64) : Bool :=
  validPoint (Der.unsigned (pub.toList.take 32)) (Der.unsigned (pub.toList.drop 32))

theorem validPoint_iff {x y : Nat} : validPoint x y = true ↔ secp256r1.OnCurve x y := by
  have hzero : ¬ secp256r1.OnCurve 0 0 := ShortWeierstrass.not_onCurve_zero (by decide +kernel)
  unfold validPoint xSide
  rw [ShortWeierstrass.horner_mod]
  by_cases hxy : x = 0 ∧ y = 0
  · obtain ⟨rfl, rfl⟩ := hxy
    simp [hzero]
  · rw [if_neg hxy]
    by_cases hle : secp256r1.p ≤ x ∨ secp256r1.p ≤ y
    · rw [if_pos hle]
      refine iff_of_false (by simp) ?_
      rintro ⟨hx, hy, -⟩
      omega
    · rw [if_neg hle, decide_eq_true_iff]
      exact ⟨fun h => ⟨by omega, by omega, h⟩, fun h => h.2.2⟩

/-- A public key is accepted exactly where its coordinates are a point of the curve over the field. -/
theorem validPublicKey_iff {pub : Bytes 64} : validPublicKey pub = true ↔
    Der.unsigned (pub.toList.take 32) < secp256r1.p ∧ Der.unsigned (pub.toList.drop 32) < secp256r1.p ∧
      secp256r1.toAffine.Equation (Der.unsigned (pub.toList.take 32)) (Der.unsigned (pub.toList.drop 32)) := by
  unfold validPublicKey
  rw [validPoint_iff, ShortWeierstrass.onCurve_iff_equation]

theorem not_validPublicKey_zero : validPublicKey (Bytes.zero 64) = false := by decide +kernel

/-! ## Keys from scalars -/

/-- The scalars for which `EccPoint_mult` comes to a point.  For 1 and for the last two scalars its ladder meets
the point at infinity, and the result is zero. -/
def LadderScalar (k : Bytes 32) : Prop := 2 ≤ scalarOf k ∧ scalarOf k ≤ groupOrder - 3

instance (k : Bytes 32) : Decidable (LadderScalar k) := inferInstanceAs (Decidable (_ ∧ _))

theorem LadderScalar.isValidScalar {k : Bytes 32} (h : LadderScalar k) : isValidScalar k = true := by
  obtain ⟨hlow, hhigh⟩ := h
  rw [isValidScalar_iff]
  omega

/-- Random numbers that `uECC_generate_random_int` and `uECC_sign_with_k` can use come within the 64 tries.  They
are read as little-endian words. -/
def ServesEcc (random : Nat → UInt8) : Prop :=
  ∀ pos, ∃ k < 64, 2 ≤ Der.unsigned (streamBytes random (pos + 32 * k) 32).toList.reverse ∧
    Der.unsigned (streamBytes random (pos + 32 * k) 32).toList.reverse ≤ groupOrder - 3

/-- What the source of micro-ecc shows of two of its functions. -/
structure Primitives.EccWorks (C : Primitives) : Prop where
  /-- `uECC_compute_public_key` computes a multiple of the base point. -/
  point : ∀ k random, LadderScalar k → ∃ pub, (C.eccPublicKey k random).1 = some pub ∧ validPublicKey pub = true
  /-- It returns 0 for the scalars it does not reach. -/
  noPoint : ∀ k random, ¬ LadderScalar k → (C.eccPublicKey k random).1 = none
  /-- `uECC_sign` does not look at the private key: it needs random numbers only. -/
  signs : ∀ k hash random, ServesEcc random → (C.eccSign k hash random).1 ≠ none

end TkeyFido2
