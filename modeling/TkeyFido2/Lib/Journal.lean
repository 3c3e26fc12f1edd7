import Mathlib.Data.List.Induction

/-!
# Writes in their order

A program changes a store by one write after the other and may be cut off between any two of them.
`Durable` says that the store is in order at every cut, apart from those in a gap: between two writes
that belong together.
-/

namespace Journal

variable {δ ε : Type} {write : δ → ε → δ}

/-- The store after the writes of a journal. -/
def replay (write : δ → ε → δ) (d : δ) (j : List ε) : δ := j.foldl write d

@[simp] theorem replay_nil {d : δ} : replay write d [] = d := rfl

theorem replay_append {d : δ} {j k : List ε} :
    replay write d (j ++ k) = replay write (replay write d j) k := List.foldl_append

theorem replay_concat {d : δ} {j : List ε} {e : ε} :
    replay write d (j ++ [e]) = write (replay write d j) e := replay_append

/-- Entries that write nothing may be left out. -/
theorem replay_filter {p : ε → Bool} (hp : ∀ d e, p e = false → write d e = d) {d : δ} {j : List ε} :
    replay write d (j.filter p) = replay write d j := by
  induction j generalizing d with
  | nil => rfl
  | cons e j ih =>
    by_cases he : p e = true
    · rw [List.filter_cons_of_pos he]
      exact ih
    · rw [List.filter_cons_of_neg he]
      refine ih.trans ?_
      show replay write d j = replay write (write d e) j
      rw [hp d e (Bool.eq_false_iff.mpr he)]

/-- The journal `j` made `d` of `d₀`, and a cut that is not in a gap leaves a store in order. -/
structure Durable (write : δ → ε → δ) (gap : List ε → Prop) (ok : List ε → δ → Prop) (d₀ : δ)
    (j : List ε) (d : δ) : Prop where
  replayed : replay write d₀ j = d
  cuts : ∀ p, p <+: j → ¬ gap p → ok p (replay write d₀ p)

variable {gap : List ε → Prop} {ok : List ε → δ → Prop} {d₀ d : δ} {j : List ε}

theorem durable_nil (h : ok [] d₀) : Durable write gap ok d₀ [] d₀ := by
  refine ⟨rfl, fun p hp _ => ?_⟩
  obtain rfl := List.prefix_nil.mp hp
  exact h

/-- One more write. -/
theorem Durable.concat (h : Durable write gap ok d₀ j d) {e : ε}
    (he : ¬ gap (j ++ [e]) → ok (j ++ [e]) (write d e)) :
    Durable write gap ok d₀ (j ++ [e]) (write d e) := by
  have hd : replay write d₀ (j ++ [e]) = write d e := by rw [replay_concat, h.replayed]
  refine ⟨hd, fun p hp hgap => ?_⟩
  rcases List.prefix_concat_iff.mp hp with rfl | hp
  · rw [hd]
    exact he hgap
  · exact h.cuts p hp hgap

/-- A series of writes, each of which leaves the store in order. -/
theorem Durable.append (h : Durable write gap ok d₀ j d) {k : List ε}
    (hk : ∀ q e, q ++ [e] <+: k → ok (j ++ (q ++ [e])) (replay write d (q ++ [e]))) :
    Durable write gap ok d₀ (j ++ k) (replay write d k) := by
  induction k using List.reverseRecOn with
  | nil => rwa [List.append_nil]
  | append_singleton k e ih =>
    have hpre := ih fun q e' hq => hk q e' (hq.trans (List.prefix_append k [e]))
    rw [← List.append_assoc, replay_concat]
    refine hpre.concat fun _ => ?_
    have := hk k e List.prefix_rfl
    rwa [replay_concat, ← List.append_assoc] at this

end Journal
