import Mathlib.AlgebraicGeometry.EllipticCurve.Affine.Basic
import Mathlib.Data.ZMod.Basic

/-!
# Short Weierstrass curves in natural numbers

A point is given by two numbers below the modulus, and the equation is tested in remainders.
-/

/-- The curve y² = x³ + ax + b modulo `p`. -/
structure ShortWeierstrass where
  p : Nat
  a : Nat
  b : Nat

namespace ShortWeierstrass

variable (C : ShortWeierstrass)

/-- The curve over the integers modulo `p`. -/
def toAffine : WeierstrassCurve.Affine (ZMod C.p) := { a₁ := 0, a₂ := 0, a₃ := 0, a₄ := C.a, a₆ := C.b }

/-- Two numbers below `p` that satisfy the equation. -/
def OnCurve (x y : Nat) : Prop := x < C.p ∧ y < C.p ∧ y * y % C.p = (x * x * x + C.a * x + C.b) % C.p

instance (x y : Nat) : Decidable (C.OnCurve x y) := inferInstanceAs (Decidable (_ ∧ _ ∧ _))

variable {C} {x y : Nat}

theorem onCurve_iff_equation : C.OnCurve x y ↔ x < C.p ∧ y < C.p ∧ C.toAffine.Equation x y := by
  have hmod : y * y % C.p = (x * x * x + C.a * x + C.b) % C.p ↔
      ((y * y : Nat) : ZMod C.p) = ((x * x * x + C.a * x + C.b : Nat) : ZMod C.p) :=
    (ZMod.natCast_eq_natCast_iff _ _ _).symm
  unfold OnCurve
  rw [hmod, WeierstrassCurve.Affine.equation_iff]
  push_cast
  simp only [toAffine, zero_mul, add_zero, pow_succ, pow_zero, one_mul]

/-- The origin lies on the curve only where the constant vanishes. -/
theorem not_onCurve_zero (hb : C.b % C.p ≠ 0) : ¬ C.OnCurve 0 0 := by
  rintro ⟨-, -, heq⟩
  simp only [Nat.mul_zero, Nat.zero_mod, Nat.zero_add] at heq
  exact hb heq.symm

/-- The right hand side of the equation in Horner's form, each step reduced. -/
theorem horner_mod (x : Nat) :
    ((x * x % C.p + C.a) % C.p * x % C.p + C.b) % C.p = (x * x * x + C.a * x + C.b) % C.p := by
  rw [Nat.mod_add_mod, Nat.mod_add_mod, Nat.add_mod, Nat.mod_mul_mod, ← Nat.add_mod, Nat.add_mul]

end ShortWeierstrass
