import Mathlib.Data.Finset.Card
import Mathlib.Data.Finset.Range
import Mathlib.GroupTheory.Perm.Basic
import Mathlib.Tactic.Common

/-!
# Segments of a memory

A memory has a value at every address.  A program that works in place rearranges a segment of it and leaves the
rest alone; what it does with parts of the segment is then a rearrangement of the segment as a whole.
-/

namespace Segments

/-- A value at every address. -/
structure Cells (α : Type) where
  get : Nat → α

instance {α : Type} : CoeFun (Cells α) fun _ => Nat → α := ⟨Cells.get⟩

variable {α : Type}

/-- Exchange two cells. -/
def swap (m : Cells α) (i j : Nat) : Cells α :=
  let x := m i
  let y := m j
  ⟨fun k => if k = i then y else if k = j then x else m k⟩

/-- `m'` has the cells of `m` between `lo` and `hi` in another order. -/
def Rearranged (lo hi : Nat) (m m' : Cells α) : Prop :=
  ∃ σ : Equiv.Perm Nat, (∀ i, i < lo ∨ hi ≤ i → σ i = i) ∧ ∀ i, m' i = m (σ i)

/-- In order between `lo` and `hi`. -/
def SortedOn (le : α → α → Prop) (lo hi : Nat) (m : Cells α) : Prop :=
  ∀ i j, lo ≤ i → i < j → j < hi → le (m i) (m j)

section Swap

variable {m : Cells α} {i j k : Nat}

theorem swap_left : swap m i j i = m j := if_pos rfl

theorem swap_right : swap m i j j = m i := by
  by_cases h : j = i
  · exact (if_pos h).trans (by rw [h])
  · exact (if_neg h).trans (if_pos rfl)

theorem swap_of_ne (hi : k ≠ i) (hj : k ≠ j) : swap m i j k = m k := by
  exact (if_neg hi).trans (if_neg hj)

end Swap

namespace Rearranged

variable {lo hi lo' hi' i j : Nat} {m m' m'' : Cells α}

theorem refl (m : Cells α) : Rearranged lo hi m m := ⟨1, fun _ _ => rfl, fun _ => rfl⟩

theorem trans (h : Rearranged lo hi m m') (h' : Rearranged lo hi m' m'') : Rearranged lo hi m m'' := by
  obtain ⟨σ, hfix, hm⟩ := h
  obtain ⟨τ, hfix', hm'⟩ := h'
  refine ⟨σ * τ, fun i hi => ?_, fun i => ?_⟩
  · rw [Equiv.Perm.mul_apply, hfix' i hi, hfix i hi]
  · rw [hm', hm, Equiv.Perm.mul_apply]

theorem mono (h : Rearranged lo hi m m') (hlo : lo' ≤ lo) (hhi : hi ≤ hi') : Rearranged lo' hi' m m' := by
  obtain ⟨σ, hfix, hm⟩ := h
  exact ⟨σ, fun i hi => hfix i (by omega), hm⟩

theorem swap (hin : lo ≤ i ∧ i < hi) (hjn : lo ≤ j ∧ j < hi) : Rearranged lo hi m (Segments.swap m i j) := by
  refine ⟨Equiv.swap i j, fun k hk => ?_, fun k => ?_⟩
  · exact Equiv.swap_apply_of_ne_of_ne (by omega) (by omega)
  · rw [Equiv.swap_apply_def]
    unfold Segments.swap
    dsimp only
    split_ifs <;> rfl

theorem outside (h : Rearranged lo hi m m') (hout : i < lo ∨ hi ≤ i) : m' i = m i := by
  obtain ⟨σ, hfix, hm⟩ := h
  rw [hm, hfix i hout]

/-- Where a cell of the segment comes from. -/
theorem source (h : Rearranged lo hi m m') (hin : lo ≤ i ∧ i < hi) : ∃ j, (lo ≤ j ∧ j < hi) ∧ m' i = m j := by
  obtain ⟨σ, hfix, hm⟩ := h
  refine ⟨σ i, ?_, hm i⟩
  by_contra hout
  have hsame : σ (σ i) = σ i := hfix (σ i) (by omega)
  have hfixed : σ i = i := σ.injective hsame
  omega

/-- What holds of all cells still does. -/
theorem all {p : α → Prop} (h : Rearranged lo hi m m') (hm : ∀ i, lo ≤ i → i < hi → p (m i)) :
    ∀ i, lo ≤ i → i < hi → p (m' i) := by
  intro i hlo hhi
  obtain ⟨j, hj, heq⟩ := h.source ⟨hlo, hhi⟩
  rw [heq]
  exact hm j hj.1 hj.2

/-- The first cells as a list. -/
theorem perm (h : Rearranged 0 hi m m') : ((List.range hi).map m').Perm ((List.range hi).map m) := by
  obtain ⟨σ, hfix, hm⟩ := h
  have hrange : (Finset.range hi).map σ.toEmbedding = Finset.range hi := by
    refine Finset.eq_of_subset_of_card_le (fun x hx => ?_) (Finset.card_map _).ge
    obtain ⟨i, hin, rfl⟩ := Finset.mem_map.mp hx
    rw [Finset.mem_range] at hin ⊢
    by_contra hout
    have hfixed : σ i = i := σ.injective (hfix (σ i) (.inr (Nat.not_lt.mp hout)))
    rw [Equiv.coe_toEmbedding, hfixed] at hout
    exact hout hin
  have hperm : ((List.range hi).map σ).Perm (List.range hi) := by
    have hval := congrArg Finset.val hrange
    rw [Finset.map_val] at hval
    exact Multiset.coe_eq_coe.mp hval
  have hmap : (List.range hi).map m' = ((List.range hi).map σ).map m := by
    rw [List.map_map]
    exact List.map_congr_left fun i _ => hm i
  rw [hmap]
  exact hperm.map m

end Rearranged

namespace SortedOn

variable {le : α → α → Prop} {lo hi : Nat} {m m' : Cells α}

theorem congr (h : SortedOn le lo hi m) (heq : ∀ i, lo ≤ i → i < hi → m' i = m i) : SortedOn le lo hi m' := by
  intro i j hi hij hj
  rw [heq i hi (by omega), heq j (by omega) hj]
  exact h i j hi hij hj

/-- Sorted parts, one above the other. -/
theorem append (mid : Nat) (h : SortedOn le lo mid m) (h' : SortedOn le mid hi m)
    (hle : ∀ i j, lo ≤ i → i < mid → mid ≤ j → j < hi → le (m i) (m j)) : SortedOn le lo hi m := by
  intro i j hi hij hj
  by_cases hjmid : j < mid
  · exact h i j hi hij hjmid
  by_cases himid : i < mid
  · exact hle i j hi himid (Nat.not_lt.mp hjmid) hj
  · exact h' i j (Nat.not_lt.mp himid) hij hj

/-- The first cells as a list. -/
theorem pairwise (h : SortedOn le 0 hi m) : ((List.range hi).map m).Pairwise le := by
  rw [List.pairwise_map]
  refine List.Pairwise.imp_of_mem ?_ List.pairwise_lt_range
  intro i j _ hj hij
  exact h i j (Nat.zero_le _) hij (List.mem_range.mp hj)

end SortedOn

/-! ## One segment after the other -/

/-- A segment: where it begins, and how many cells it has. -/
abbrev Segment := Nat × Nat

/-- From `m` to `m'` the segments are sorted, one after the other. -/
def SortsAll (le : α → α → Prop) : List Segment → Cells α → Cells α → Prop
  | [], m, m' => m' = m
  | (a, n) :: rest, m, m' => ∃ m₁, Rearranged a (a + n) m m₁ ∧ SortedOn le a (a + n) m₁ ∧ SortsAll le rest m₁ m'

/-- A segment with at most one cell is sorted. -/
theorem sortsAll_of_le_one {le : α → α → Prop} {a n : Nat} {rest : List Segment} {m m' : Cells α} (hn : n ≤ 1)
    (h : SortsAll le rest m m') : SortsAll le ((a, n) :: rest) m m' :=
  ⟨m, .refl m, fun _ _ _ _ _ => by omega, h⟩

end Segments
