import Mathlib.Logic.Function.Iterate
import Mathlib.Data.List.Range
import Mathlib.Tactic.Common

/-!
# Reading from a source of blocks

A source yields `n` items for each of its states and is stepped when they are used up.  A reader
holds the current state and how many items of its block are left.  Reading is defined item by item;
what a buffered implementation does (copy a chunk, step the source when nothing is left) are two rules
about it.
-/

namespace BlockSource

variable {σ α : Type} {n : Nat}

/-- The current state of the source and the number of unread items of its block. -/
structure Reader (σ : Type) (n : Nat) where
  source : σ
  left : Nat
  left_le : left ≤ n

/-- The source was just stepped. -/
def Reader.fresh (s : σ) : Reader σ n := ⟨s, n, le_refl n⟩

variable (next : σ → σ) (block : σ → Nat → α)

/-- One item. -/
def one (r : Reader σ n) : α × Reader σ n :=
  if r.left = 0 then (block (next r.source) 0, ⟨next r.source, n - 1, Nat.sub_le n 1⟩)
  else (block r.source (n - r.left), ⟨r.source, r.left - 1, (Nat.sub_le r.left 1).trans r.left_le⟩)

def read : Nat → Reader σ n → List α × Reader σ n
  | 0, r => ([], r)
  | k + 1, r =>
    let rest := read k (one next block r).2
    ((one next block r).1 :: rest.1, rest.2)

/-- The item at a position of the blocks of `s` and the states after it. -/
def item (n : Nat) (s : σ) (p : Nat) : α := block (next^[p / n] s) (p % n)

/-! ## Composition -/

/-- Reading in two parts. -/
theorem read_add (k m : Nat) (r : Reader σ n) :
    read next block (k + m) r
      = ((read next block k r).1 ++ (read next block m (read next block k r).2).1,
          (read next block m (read next block k r).2).2) := by
  induction k generalizing r with
  | zero => rw [Nat.zero_add]; rfl
  | succ k ih =>
    rw [Nat.add_right_comm]
    show ((one next block r).1 :: (read next block (k + m) (one next block r).2).1,
      (read next block (k + m) (one next block r).2).2) = _
    rw [ih]
    rfl

@[simp] theorem length_read (k : Nat) (r : Reader σ n) : (read next block k r).1.length = k := by
  induction k generalizing r with
  | zero => rfl
  | succ k ih => exact congrArg Nat.succ (ih _)

/-! ## Chunks -/

/-- Copying a chunk of the current block. -/
theorem read_chunk (k : Nat) (r : Reader σ n) (hk : k ≤ r.left) :
    read next block k r
      = ((List.range k).map fun j => block r.source (n - r.left + j),
          ⟨r.source, r.left - k, (Nat.sub_le r.left k).trans r.left_le⟩) := by
  induction k generalizing r with
  | zero => rfl
  | succ k ih =>
    have hle := r.left_le
    have hone : one next block r = (block r.source (n - r.left),
        ⟨r.source, r.left - 1, (Nat.sub_le r.left 1).trans r.left_le⟩) := if_neg (by omega)
    have hstart : ∀ j, n - (r.left - 1) + j = n - r.left + (j + 1) := by omega
    rw [read, hone, ih _ (by simp only; omega), List.range_succ_eq_map, List.map_cons, List.map_map]
    simp only [hstart, Nat.sub_sub, Nat.add_comm 1 k]
    rfl

/-- Where nothing is left the source is stepped first. -/
theorem read_refill {k : Nat} (hk : 0 < k) (r : Reader σ n) (hr : r.left = 0) (hn : 0 < n) :
    read next block k r = read next block k (Reader.fresh (next r.source)) := by
  cases k with
  | zero => omega
  | succ k =>
    have hone : one next block r = one next block (Reader.fresh (n := n) (next r.source)) := by
      rw [one, if_pos hr, one, if_neg (by show ¬ n = 0; omega)]
      simp only [Reader.fresh, Nat.sub_self]
    rw [read, read, hone]

/-! ## The stream -/

theorem item_add_block (hn : 0 < n) (s : σ) (p : Nat) :
    item next block n s (n + p) = item next block n (next s) p := by
  unfold item
  rw [Nat.add_div_left p hn, Nat.add_mod_left, Function.iterate_succ_apply]

theorem item_of_lt (s : σ) {p : Nat} (h : p < n) : item next block n s p = block s p := by
  unfold item
  rw [Nat.div_eq_of_lt h, Nat.mod_eq_of_lt h, Function.iterate_zero_apply]

/-- What is read is the stream from the position of the reader on. -/
theorem read_eq_items (hn : 0 < n) (k : Nat) (r : Reader σ n) :
    (read next block k r).1 = (List.range k).map fun j => item next block n r.source (n - r.left + j) := by
  induction k generalizing r with
  | zero => rfl
  | succ k ih =>
    have hle := r.left_le
    rw [read, List.range_succ_eq_map, List.map_cons, List.map_map, ih]
    by_cases hzero : r.left = 0
    · have hone : one next block r = (block (next r.source) 0, ⟨next r.source, n - 1, Nat.sub_le n 1⟩) :=
        if_pos hzero
      rw [hone, hzero, Nat.sub_zero, Nat.add_zero, show item next block n r.source n
        = item next block n r.source (n + 0) from rfl, item_add_block next block hn,
        item_of_lt next block _ hn]
      refine List.cons_eq_cons.mpr ⟨rfl, List.map_congr_left fun j _ => ?_⟩
      rw [Function.comp_apply, item_add_block next block hn]
      congr 1
      show n - (n - 1) + j = j + 1
      omega
    · have hone : one next block r = (block r.source (n - r.left),
          ⟨r.source, r.left - 1, (Nat.sub_le r.left 1).trans r.left_le⟩) := if_neg hzero
      rw [hone, Nat.add_zero, item_of_lt next block _ (show n - r.left < n by omega)]
      refine List.cons_eq_cons.mpr ⟨rfl, List.map_congr_left fun j _ => ?_⟩
      rw [Function.comp_apply]
      congr 1
      show n - (r.left - 1) + j = n - r.left + (j + 1)
      omega

/-- What is read later is the stream from where the first part ended. -/
theorem read_after (hn : 0 < n) (k m : Nat) (r : Reader σ n) :
    (read next block m (read next block k r).2).1
      = (List.range m).map fun j => item next block n r.source (n - r.left + (k + j)) := by
  have hsplit := congrArg Prod.fst (read_add next block k m r)
  rw [read_eq_items next block hn, read_eq_items next block hn k, List.range_add, List.map_append,
    List.map_map] at hsplit
  exact (List.append_cancel_left hsplit).symm

/-- The blocks of the successive states, one after the other, are the stream. -/
theorem blocks_eq_items (s : σ) (m : Nat) :
    ((List.range m).flatMap fun i => (List.range n).map (block (next^[i] s)))
      = (List.range (n * m)).map (item next block n s) := by
  induction m with
  | zero => rfl
  | succ m ih =>
    rw [List.range_succ, List.flatMap_append, ih, List.flatMap_singleton, Nat.mul_succ, List.range_add,
      List.map_append, List.map_map]
    congr 1
    refine List.map_congr_left fun j hj => ?_
    have hlt := List.mem_range.mp hj
    rw [Function.comp_apply, item, Nat.mul_add_div (by omega), Nat.mul_add_mod, Nat.div_eq_of_lt hlt,
      Nat.mod_eq_of_lt hlt, Nat.add_zero]

/-- The first items of the stream, from enough blocks. -/
theorem items_eq_take_blocks (s : σ) {k m : Nat} (h : k ≤ n * m) :
    (List.range k).map (item next block n s)
      = ((List.range m).flatMap fun i => (List.range n).map (block (next^[i] s))).take k := by
  rw [blocks_eq_items, ← List.map_take, List.take_range, Nat.min_eq_left h]

end BlockSource
