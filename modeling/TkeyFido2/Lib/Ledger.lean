import Mathlib.Tactic.Common

/-!
# The last change of a key

A store of values under keys is changed by writes, removals and clearings.  What it holds under a key
is what the last change of that key says, as long as each operation does what the change says.
-/

namespace Ledger

variable {κ ν : Type}

inductive Change (κ ν : Type)
  | put (k : κ) (v : ν)
  | remove (k : κ)
  | clear

/-- The value of the last write of a key, if the key was not removed and the store not cleared since.
The newest change is the first. -/
def latest [DecidableEq κ] : List (Change κ ν) → κ → Option ν
  | [], _ => none
  | .put k v :: log, k' => if k' = k then some v else latest log k'
  | .remove k :: log, k' => if k' = k then none else latest log k'
  | .clear :: _, _ => none

/-- What a store holds is what the last changes say. -/
def Follows [DecidableEq κ] (holds : κ → ν → Prop) (log : List (Change κ ν)) : Prop :=
  ∀ k v, holds k v ↔ latest log k = some v

variable [DecidableEq κ] {holds holds' : κ → ν → Prop} {log : List (Change κ ν)}

theorem follows_empty (h : ∀ k v, ¬ holds k v) : Follows holds [] := by
  intro k v
  simp [latest, h k v]

theorem follows_clear (h : ∀ k v, ¬ holds k v) : Follows holds (.clear :: log) := by
  intro k v
  simp [latest, h k v]

theorem Follows.put {k : κ} {v : ν} (hf : Follows holds log)
    (h : ∀ k' v', holds' k' v' ↔ (k' = k ∧ v' = v) ∨ (k' ≠ k ∧ holds k' v')) :
    Follows holds' (.put k v :: log) := by
  intro k' v'
  rw [h]
  by_cases hk : k' = k
  · simp [latest, hk, eq_comm]
  · simp [latest, hk, hf k' v']

theorem Follows.remove {k : κ} (hf : Follows holds log)
    (h : ∀ k' v', holds' k' v' ↔ k' ≠ k ∧ holds k' v') : Follows holds' (.remove k :: log) := by
  intro k' v'
  rw [h]
  by_cases hk : k' = k
  · simp [latest, hk]
  · simp [latest, hk, hf k' v']

/-- A value that is held was written. -/
theorem exists_put_of_latest {k : κ} {v : ν} (h : latest log k = some v) : .put k v ∈ log := by
  induction log with
  | nil => cases h
  | cons c log ih =>
    cases c with
    | put k' v' =>
      unfold latest at h
      split at h
      · rename_i hk
        cases h
        rw [hk]
        exact List.mem_cons_self ..
      · exact List.mem_cons_of_mem _ (ih h)
    | remove k' =>
      unfold latest at h
      split at h
      · cases h
      · exact List.mem_cons_of_mem _ (ih h)
    | clear => cases h

/-- A change that leaves the value of a key as it is. -/
def Change.Spares (k : κ) (v : ν) : Change κ ν → Prop
  | .put k' v' => k' = k → v' = v
  | .remove k' => k' ≠ k
  | .clear => False

/-- A value stays as long as the changes spare it. -/
theorem latest_append_of_spares {k : κ} {v : ν} {newer : List (Change κ ν)} (h : latest log k = some v)
    (hnewer : ∀ c ∈ newer, c.Spares k v) : latest (newer ++ log) k = some v := by
  induction newer with
  | nil => exact h
  | cons c newer ih =>
    obtain ⟨hc, hrest⟩ := List.forall_mem_cons.mp hnewer
    cases c with
    | put k' v' =>
      show (if k = k' then some v' else latest (newer ++ log) k) = some v
      split_ifs with hk
      · rw [hc hk.symm]
      · exact ih hrest
    | remove k' =>
      show (if k = k' then none else latest (newer ++ log) k) = some v
      rw [if_neg (Ne.symm hc)]
      exact ih hrest
    | clear => exact hc.elim

end Ledger
