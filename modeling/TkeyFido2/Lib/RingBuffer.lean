import Mathlib.Data.List.Basic
import Mathlib.Data.Nat.ModEq

/-!
# Queues in a ring

A bounded queue and a ring of cells that holds one: the cells in use are `size` many from `first` on, and the index
wraps at the capacity.  A simulation of machines that answer calls carries the step lemmas to runs.
-/

/-! ## Machines that answer calls -/

namespace Machine

variable {σ τ ι ο : Type}

/-- The answers to a list of calls, and the state behind it. -/
def run (step : σ → ι → ο × σ) : σ → List ι → List ο × σ
  | s, [] => ([], s)
  | s, i :: is =>
    let r := step s i
    let rest := run step r.2 is
    (r.1 :: rest.1, rest.2)

/-- Related states that answer every call alike, and stay related, answer all lists of calls alike. -/
theorem run_simulates {step : σ → ι → ο × σ} {step' : τ → ι → ο × τ} {R : σ → τ → Prop}
    (hstep : ∀ s t i, R s t → (step s i).1 = (step' t i).1 ∧ R (step s i).2 (step' t i).2) {s : σ} {t : τ}
    (h : R s t) (is : List ι) : (run step s is).1 = (run step' t is).1 ∧ R (run step s is).2 (run step' t is).2 := by
  induction is generalizing s t with
  | nil => exact ⟨rfl, h⟩
  | cons i is ih =>
    obtain ⟨hout, hrel⟩ := hstep s t i h
    obtain ⟨houts, hrel'⟩ := ih hrel
    refine ⟨?_, hrel'⟩
    rw [run, run, hout, houts]

theorem run_append (step : σ → ι → ο × σ) (s : σ) (is is' : List ι) : run step s (is ++ is')
    = ((run step s is).1 ++ (run step (run step s is).2 is').1, (run step (run step s is).2 is').2) := by
  induction is generalizing s with
  | nil => rfl
  | cons i is ih => simp only [List.cons_append, run, ih]

end Machine

/-! ## Bounded queues -/

namespace BoundedQueue

variable {α : Type}

inductive Call (α : Type)
  | add (a : α)
  | take

/-- What a call returns: whether the message was added, or the message that was taken. -/
inductive Answer (α : Type)
  | added (ok : Bool)
  | taken (a : Option α)

/-- A queue that holds at most `capacity` messages, the oldest first. -/
def step (capacity : Nat) (q : List α) : Call α → Answer α × List α
  | .add a => if q.length < capacity then (.added true, q ++ [a]) else (.added false, q)
  | .take =>
    match q with
    | [] => (.taken none, [])
    | a :: q => (.taken (some a), q)

/-- The messages that were added. -/
def accepted : List (Call α) → List (Answer α) → List α
  | .add a :: is, .added true :: os => a :: accepted is os
  | _ :: is, _ :: os => accepted is os
  | _, _ => []

/-- The messages that were taken. -/
def delivered : List (Answer α) → List α
  | [] => []
  | .taken (some a) :: os => a :: delivered os
  | _ :: os => delivered os

/-- Every message that was added was taken, in order, or is still held. -/
theorem accepted_eq (capacity : Nat) (q : List α) (is : List (Call α)) :
    q ++ accepted is (Machine.run (step capacity) q is).1
      = delivered (Machine.run (step capacity) q is).1 ++ (Machine.run (step capacity) q is).2 := by
  induction is generalizing q with
  | nil => exact List.append_nil q
  | cons i is ih =>
    cases i with
    | add a =>
      by_cases hroom : q.length < capacity
      · have hstep : step capacity q (.add a) = (.added true, q ++ [a]) := if_pos hroom
        simp only [Machine.run, hstep, accepted, delivered]
        rw [← ih (q ++ [a]), List.append_assoc, List.singleton_append]
      · have hstep : step capacity q (.add a) = (.added false, q) := if_neg hroom
        simp only [Machine.run, hstep, accepted, delivered]
        exact ih q
    | take =>
      cases q with
      | nil => exact ih []
      | cons a q => exact congrArg (a :: ·) (ih q)

theorem length_le (capacity : Nat) {q : List α} (h : q.length ≤ capacity) (is : List (Call α)) :
    (Machine.run (step capacity) q is).2.length ≤ capacity := by
  induction is generalizing q with
  | nil => exact h
  | cons i is ih =>
    refine ih ?_
    cases i with
    | add a =>
      by_cases hroom : q.length < capacity
      · have hstep : step capacity q (.add a) = (.added true, q ++ [a]) := if_pos hroom
        rw [hstep, List.length_append, List.length_singleton]
        exact hroom
      · have hstep : step capacity q (.add a) = (.added false, q) := if_neg hroom
        rw [hstep]
        exact h
    | take =>
      cases q with
      | nil => exact h
      | cons a q => exact Nat.le_of_succ_le h

end BoundedQueue

/-! ## Rings -/

namespace Ring

variable {α : Type} {n first size : Nat} {cells : Nat → α} {a : α}

/-- The `size` messages in a ring of `n` cells, from the cell `first` on. -/
def contents (n : Nat) (cells : Nat → α) (first size : Nat) : List α :=
  (List.range size).map fun i => cells ((first + i) % n)

@[simp] theorem length_contents : (contents n cells first size).length = size := by
  rw [contents, List.length_map, List.length_range]

/-- Only the cells of the ring count. -/
theorem contents_congr {cells' : Nat → α} (hn : 0 < n) (h : ∀ i < n, cells i = cells' i) :
    contents n cells first size = contents n cells' first size :=
  List.map_congr_left fun _ _ => h _ (Nat.mod_lt _ hn)

/-- The first of them. -/
theorem contents_succ : contents n cells first (size + 1)
    = cells (first % n) :: contents n cells ((first + 1) % n) size := by
  unfold contents
  rw [List.range_succ_eq_map, List.map_cons, List.map_map]
  refine congrArg₂ List.cons rfl (List.map_congr_left fun i _ => ?_)
  show cells ((first + (i + 1)) % n) = cells (((first + 1) % n + i) % n)
  rw [Nat.mod_add_mod, Nat.add_right_comm, Nat.add_assoc]

/-- A message written behind the last one does not touch those in use. -/
theorem contents_update (h : size < n) :
    contents n (Function.update cells ((first + size) % n) a) first (size + 1)
      = contents n cells first size ++ [a] := by
  unfold contents
  rw [List.range_succ, List.map_append, List.map_singleton, Function.update_self]
  refine congrArg (· ++ [a]) (List.map_congr_left fun i hi => ?_)
  have hlt : i < size := List.mem_range.mp hi
  refine Function.update_of_ne (fun heq => ?_) _ _
  have hmod : i % n = size % n := Nat.ModEq.add_left_cancel' first heq
  rw [Nat.mod_eq_of_lt (Nat.lt_trans hlt h), Nat.mod_eq_of_lt h] at hmod
  omega

end Ring
