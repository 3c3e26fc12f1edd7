import Mathlib.Algebra.BigOperators.Intervals
import Mathlib.Algebra.Order.BigOperators.Group.Finset
import Mathlib.Algebra.BigOperators.Ring.Finset
import Mathlib.Data.Nat.Digits.Lemmas
import Mathlib.Tactic.Ring

/-!
# Numbers in words

A number is kept in words of 32 bits, the least significant one first.
-/

namespace Limbs

open Finset

/-- The number in some words. -/
def value (l : List UInt32) : Nat := Nat.ofDigits (2 ^ 32) (l.map UInt32.toNat)

variable {l m : List UInt32} {w : UInt32}

@[simp] theorem value_nil : value [] = 0 := rfl

@[simp] theorem value_cons (w : UInt32) (l : List UInt32) : value (w :: l) = w.toNat + 2 ^ 32 * value l :=
  Nat.ofDigits_cons

theorem value_append (l m : List UInt32) : value (l ++ m) = value l + (2 ^ 32) ^ l.length * value m := by
  unfold value
  rw [List.map_append, Nat.ofDigits_append, List.length_map]

theorem value_lt (l : List UInt32) : value l < (2 ^ 32) ^ l.length := by
  have hdigits : ∀ d ∈ l.map UInt32.toNat, d < 2 ^ 32 := by
    intro d hd
    obtain ⟨w, -, rfl⟩ := List.mem_map.mp hd
    exact w.toNat_lt
  have hlt := Nat.ofDigits_lt_base_pow_length (by decide) hdigits
  rwa [List.length_map] at hlt

/-- Words of one number are the same, if there are as many. -/
theorem value_inj (hlen : l.length = m.length) (h : value l = value m) : l = m := by
  induction l generalizing m with
  | nil => exact (List.length_eq_zero_iff.mp hlen.symm).symm
  | cons w l ih =>
    obtain ⟨w', m, rfl⟩ := List.exists_cons_of_length_eq_add_one hlen.symm
    simp only [value_cons] at h
    have hw := w.toNat_lt
    have hw' := w'.toNat_lt
    have hrest : value l = value m := by omega
    have hhead : w = w' := UInt32.toNat_inj.mp (by omega)
    rw [hhead, ih (Nat.succ.inj hlen) hrest]

/-- A list of zero words. -/
@[simp] theorem value_replicate (n : Nat) : value (List.replicate n 0) = 0 := by
  induction n with
  | zero => rfl
  | succ n ih => simp [List.replicate_succ, ih]

theorem value_eq_zero : value l = 0 ↔ ∀ w ∈ l, w = 0 := by
  induction l with
  | nil => simp
  | cons w l ih =>
    rw [value_cons, List.forall_mem_cons, ← ih, ← UInt32.toNat_inj]
    simp only [UInt32.toNat_zero]
    omega

/-- The bits of a number are those of its words. -/
theorem testBit_value (l : List UInt32) (i : Nat) :
    (value l).testBit i = (l.getD (i / 32) 0).toNat.testBit (i % 32) := by
  induction l generalizing i with
  | nil => simp
  | cons w l ih =>
    have hvalue : value (w :: l) = 2 ^ 32 * value l + w.toNat := by
      rw [value_cons]
      omega
    rw [hvalue, Nat.testBit_two_pow_mul_add _ w.toNat_lt]
    by_cases hi : i < 32
    · rw [if_pos hi, Nat.div_eq_of_lt hi, Nat.mod_eq_of_lt hi, List.getD_cons_zero]
    · have hdiv : i / 32 = (i - 32) / 32 + 1 := by omega
      have hmod : i % 32 = (i - 32) % 32 := by omega
      rw [if_neg hi, ih, hdiv, hmod, List.getD_cons_succ]

/-! ## Products -/

theorem value_eq_sum (l : List UInt32) : value l = ∑ i ∈ range l.length, (l.getD i 0).toNat * (2 ^ 32) ^ i := by
  induction l with
  | nil => rfl
  | cons w l ih =>
    rw [value_cons, List.length_cons, sum_range_succ', ih, Finset.mul_sum]
    simp only [List.getD_cons_succ, List.getD_cons_zero, pow_zero, mul_one]
    rw [add_comm]
    congr 1
    refine sum_congr rfl fun i _ => ?_
    ring

/-- The products of words that count for word `k` of the product of two numbers of `n` words. -/
def column (n : Nat) (l m : List UInt32) (k : Nat) : Nat :=
  ∑ i ∈ Ico (k + 1 - n) (min (k + 1) n), (l.getD i 0).toNat * (m.getD (k - i) 0).toNat

theorem column_le (n : Nat) (l m : List UInt32) (k : Nat) : column n l m k ≤ n * (2 ^ 32 - 1) ^ 2 := by
  have hterm : ∀ i ∈ Ico (k + 1 - n) (min (k + 1) n),
      (l.getD i 0).toNat * (m.getD (k - i) 0).toNat ≤ (2 ^ 32 - 1) ^ 2 := by
    intro i _
    rw [sq]
    exact Nat.mul_le_mul (Nat.le_pred_of_lt (UInt32.toNat_lt _)) (Nat.le_pred_of_lt (UInt32.toNat_lt _))
  refine (sum_le_card_nsmul _ _ _ hterm).trans ?_
  rw [Nat.nsmul_eq_mul, Nat.card_Ico]
  exact Nat.mul_le_mul_right _ (by omega)

/-- **Multiplication by columns.** -/
theorem sum_column {n : Nat} (hl : l.length = n) (hm : m.length = n) :
    ∑ k ∈ range (2 * n - 1), column n l m k * (2 ^ 32) ^ k = value l * value m := by
  subst hl
  calc ∑ k ∈ range (2 * l.length - 1), column l.length l m k * (2 ^ 32) ^ k
      = ∑ k ∈ range (2 * l.length - 1), ∑ i ∈ Ico (k + 1 - l.length) (min (k + 1) l.length),
          (l.getD i 0).toNat * (m.getD (k - i) 0).toNat * (2 ^ 32) ^ k := by
        refine sum_congr rfl fun k _ => ?_
        rw [column, Finset.sum_mul]
    _ = ∑ i ∈ range l.length, ∑ k ∈ Ico i (i + l.length),
          (l.getD i 0).toNat * (m.getD (k - i) 0).toNat * (2 ^ 32) ^ k := by
        refine sum_comm' fun k i => ?_
        simp only [mem_range, mem_Ico]
        omega
    _ = ∑ i ∈ range l.length, (l.getD i 0).toNat * (2 ^ 32) ^ i * value m := by
        refine sum_congr rfl fun i _ => ?_
        rw [sum_Ico_eq_sum_range, value_eq_sum m, hm, Finset.mul_sum, Nat.add_sub_cancel_left]
        refine sum_congr rfl fun j _ => ?_
        rw [Nat.add_sub_cancel_left, pow_add]
        ring
    _ = value l * value m := by rw [← Finset.sum_mul, ← value_eq_sum]

end Limbs
