import Mathlib.Data.List.Basic
import Mathlib.Tactic.Common

/-!
# Memory behind a pointer

What a C function gets as a pointer without a size: the byte at each offset, of which some stretch is
meant.
-/

namespace Memory

/-! ## Reading -/

/-- The bytes from `pos` on are those of the list. -/
def Holds (data : Nat → UInt8) (pos : Nat) : List UInt8 → Prop
  | [] => True
  | b :: bs => data pos = b ∧ Holds data (pos + 1) bs

@[simp] theorem holds_nil (data : Nat → UInt8) (pos : Nat) : Holds data pos [] := trivial

@[simp] theorem holds_cons {data : Nat → UInt8} {pos : Nat} {b : UInt8} {bs : List UInt8} :
    Holds data pos (b :: bs) ↔ data pos = b ∧ Holds data (pos + 1) bs := Iff.rfl

theorem holds_append {data : Nat → UInt8} {pos : Nat} {a b : List UInt8} :
    Holds data pos (a ++ b) ↔ Holds data pos a ∧ Holds data (pos + a.length) b := by
  induction a generalizing pos with
  | nil => simp
  | cons x a ih =>
    rw [List.cons_append, holds_cons, holds_cons, ih, and_assoc, List.length_cons, Nat.add_right_comm,
      Nat.add_assoc]

/-- A list in memory, with zeroes behind it. -/
def memoryOf (l : List UInt8) (i : Nat) : UInt8 := l.getD i 0

/-! ## Writing -/

/-- `memcpy(mem + off, src, len)`. -/
def memWrite (mem : Nat → UInt8) (off : Nat) (src : List UInt8) (i : Nat) : UInt8 :=
  if off ≤ i ∧ i < off + src.length then src.getD (i - off) 0 else mem i

theorem memWrite_nil (mem : Nat → UInt8) (off : Nat) : memWrite mem off [] = mem := by
  funext i
  exact if_neg (by rw [List.length_nil]; omega)

theorem memWrite_of_ge (mem : Nat → UInt8) {off i : Nat} {src : List UInt8} (h : off + src.length ≤ i) :
    memWrite mem off src i = mem i := if_neg (by omega)

theorem holds_of_getD {data : Nat → UInt8} {pos : Nat} {l : List UInt8}
    (h : ∀ i < l.length, data (pos + i) = l.getD i 0) : Holds data pos l := by
  induction l generalizing pos with
  | nil => trivial
  | cons b l ih =>
    refine ⟨h 0 (Nat.succ_pos _), ih fun i hi => ?_⟩
    have hnext := h (i + 1) (Nat.succ_lt_succ hi)
    rwa [← Nat.add_assoc, Nat.add_right_comm] at hnext

/-- What was copied stands there. -/
theorem holds_memWrite (mem : Nat → UInt8) (off : Nat) (src : List UInt8) : Holds (memWrite mem off src) off src := by
  refine holds_of_getD fun i hi => ?_
  unfold memWrite
  rw [if_pos ⟨Nat.le_add_right _ _, by omega⟩, Nat.add_sub_cancel_left]

/-- Two copies, one behind the other. -/
theorem memWrite_append (mem : Nat → UInt8) (a b : List UInt8) :
    memWrite (memWrite mem 0 a) a.length b = memWrite mem 0 (a ++ b) := by
  funext i
  unfold memWrite
  simp only [Nat.zero_le, true_and, Nat.zero_add, Nat.sub_zero, List.length_append,
    List.getD_eq_getElem?_getD, List.getElem?_append]
  split_ifs with h₁ h₂ h₃ h₄
  all_goals first | rfl | omega

end Memory
