import Mathlib.Tactic.Common

/-!
# Programs that keep their state when they fail

A C function that returns an error code has done what it has done up to there: the state survives
the error.  `EStateM ε σ` without backtracking is that shape.  `Ends` says what holds of every way
a program can end, with a postcondition for success and one for failure, and `Preserves` is the
special case of an invariant.
-/

namespace Prog

variable {ε σ α β γ : Type}

/-- Every end of `m` from `s` satisfies `Q` (success) or `E` (failure). -/
def Ends (m : EStateM ε σ α) (s : σ) (Q : α → σ → Prop) (E : ε → σ → Prop) : Prop :=
  match m s with
  | .ok a s' => Q a s'
  | .error e s' => E e s'

/-- The state in which `m` ends. -/
def final (m : EStateM ε σ α) (s : σ) : σ :=
  match m s with
  | .ok _ s' => s'
  | .error _ s' => s'

/-- `m` keeps `I` however it ends. -/
def Preserves (I : σ → Prop) (m : EStateM ε σ α) : Prop := ∀ s, I s → I (final m s)

/-- `m` leads from `K` to `I` however it ends. -/
def Leads (K I : σ → Prop) (m : EStateM ε σ α) : Prop := ∀ s, K s → I (final m s)

/-- `m` never changes `f`. -/
def Keeps (f : σ → γ) (m : EStateM ε σ α) : Prop := ∀ s, f (final m s) = f s

/-! ## Ends -/

variable {m : EStateM ε σ α} {k : α → EStateM ε σ β} {s : σ} {Q Q' : α → σ → Prop}
  {E E' : ε → σ → Prop}

@[simp] theorem ends_pure {a : α} : Ends (pure a) s Q E ↔ Q a s := Iff.rfl

@[simp] theorem ends_throw {e : ε} : Ends (throw e) s Q E ↔ E e s := Iff.rfl

@[simp] theorem ends_bind {R : β → σ → Prop} :
    Ends (m >>= k) s R E ↔ Ends m s (fun a s' => Ends (k a) s' R E) E := by
  show Ends (EStateM.bind m k) s R E ↔ _
  unfold Ends EStateM.bind
  cases m s <;> rfl

@[simp] theorem ends_map {R : β → σ → Prop} {f : α → β} :
    Ends (f <$> m) s R E ↔ Ends m s (fun a s' => R (f a) s') E := by
  show Ends (EStateM.map f m) s R E ↔ _
  unfold Ends EStateM.map
  cases m s <;> rfl

@[simp] theorem ends_get {R : σ → σ → Prop} : Ends (get : EStateM ε σ σ) s R E ↔ R s s := Iff.rfl

@[simp] theorem ends_modify {R : PUnit → σ → Prop} {f : σ → σ} :
    Ends (modify f : EStateM ε σ PUnit) s R E ↔ R ⟨⟩ (f s) := Iff.rfl

@[simp] theorem ends_modifyGet {f : σ → α × σ} :
    Ends (modifyGet f : EStateM ε σ α) s Q E ↔ Q (f s).1 (f s).2 := Iff.rfl

theorem ends_ite {c : Prop} [Decidable c] {m' : EStateM ε σ α} :
    Ends (if c then m else m') s Q E ↔ (c → Ends m s Q E) ∧ (¬ c → Ends m' s Q E) := by
  by_cases h : c <;> simp [h]

theorem ends_congr {m' : EStateM ε σ α} (h : m s = m' s) : Ends m s Q E ↔ Ends m' s Q E := by
  unfold Ends
  rw [h]

theorem Ends.mono (h : Ends m s Q E) (hQ : ∀ a s', Q a s' → Q' a s')
    (hE : ∀ e s', E e s' → E' e s') : Ends m s Q' E' := by
  unfold Ends at *
  cases hm : m s with
  | ok a s' => rw [hm] at h; exact hQ a s' h
  | error e s' => rw [hm] at h; exact hE e s' h

theorem Ends.and (h : Ends m s Q E) (h' : Ends m s Q' E') :
    Ends m s (fun a s' => Q a s' ∧ Q' a s') (fun e s' => E e s' ∧ E' e s') := by
  unfold Ends at *
  cases hm : m s with
  | ok a s' => rw [hm] at h h'; exact ⟨h, h'⟩
  | error e s' => rw [hm] at h h'; exact ⟨h, h'⟩

theorem Ends.ok {a : α} {s' : σ} (h : Ends m s Q E) (hm : m s = .ok a s') : Q a s' := by
  unfold Ends at h
  rwa [hm] at h

theorem Ends.error {e : ε} {s' : σ} (h : Ends m s Q E) (hm : m s = .error e s') : E e s' := by
  unfold Ends at h
  rwa [hm] at h

/-- What holds of every end holds of the final state. -/
theorem Ends.final {I : σ → Prop} (h : Ends m s (fun _ => I) fun _ => I) : I (final m s) := by
  unfold Ends at h
  unfold Prog.final
  cases hm : m s with
  | ok a s' => rwa [hm] at h
  | error e s' => rwa [hm] at h

theorem ends_of_ok {a : α} {s' : σ} (hm : m s = .ok a s') (h : Q a s') : Ends m s Q E := by
  unfold Ends
  rwa [hm]

/-- A program that cannot fail. -/
theorem Ends.exists_ok (h : Ends m s Q fun _ _ => False) : ∃ a s', m s = .ok a s' ∧ Q a s' := by
  unfold Ends at h
  cases hm : m s with
  | ok a s' => rw [hm] at h; exact ⟨a, s', rfl, h⟩
  | error e s' => rw [hm] at h; exact h.elim

/-- A statement about the runs of `m` itself. -/
theorem ends_of_runs (hQ : ∀ a s', m s = .ok a s' → Q a s') (hE : ∀ e s', m s = .error e s' → E e s') :
    Ends m s Q E := by
  unfold Ends
  cases hm : m s with
  | ok a s' => exact hQ a s' hm
  | error e s' => exact hE e s' hm

/-! ## Successful runs -/

theorem bind_eq_ok {b : β} {s' : σ} :
    (m >>= k) s = .ok b s' ↔ ∃ a s₁, m s = .ok a s₁ ∧ k a s₁ = .ok b s' := by
  show EStateM.bind m k s = _ ↔ _
  unfold EStateM.bind
  cases m s with
  | ok a s₁ => simp
  | error e s₁ => simp

/-- Run the first of two programs. -/
theorem bind_of_ok {a : α} {s₁ : σ} (h : m s = .ok a s₁) : (m >>= k) s = k a s₁ := by
  show EStateM.bind m k s = _
  unfold EStateM.bind
  rw [h]

theorem run_get : (get : EStateM ε σ σ) s = .ok s s := rfl

theorem get_bind {k : σ → EStateM ε σ β} : (get >>= k) s = k s s := rfl

theorem bind_eq_error {e : ε} {s' : σ} :
    (m >>= k) s = .error e s' ↔
      m s = .error e s' ∨ ∃ a s₁, m s = .ok a s₁ ∧ k a s₁ = .error e s' := by
  show EStateM.bind m k s = _ ↔ _
  unfold EStateM.bind
  cases m s with
  | ok a s₁ => simp
  | error e₁ s₁ => simp

@[simp] theorem pure_eq_ok {a b : α} {s' : σ} :
    (pure a : EStateM ε σ α) s = .ok b s' ↔ b = a ∧ s' = s := by
  show EStateM.Result.ok a s = _ ↔ _
  simp [eq_comm]

@[simp] theorem throw_ne_ok {e : ε} {a : α} {s' : σ} :
    (throw e : EStateM ε σ α) s = .ok a s' ↔ False := by
  show EStateM.Result.error e s = _ ↔ _
  simp

@[simp] theorem get_eq_ok {a s' : σ} :
    (get : EStateM ε σ σ) s = .ok a s' ↔ a = s ∧ s' = s := by
  show EStateM.Result.ok s s = _ ↔ _
  simp [eq_comm]

@[simp] theorem modify_eq_ok {u : PUnit} {s' : σ} {f : σ → σ} :
    (modify f : EStateM ε σ PUnit) s = .ok u s' ↔ s' = f s := by
  show EStateM.Result.ok _ (f s) = _ ↔ _
  simp [eq_comm]

theorem ite_eq_ok {c : Prop} [Decidable c] {m' : EStateM ε σ α} {a : α} {s' : σ} :
    (if c then m else m') s = .ok a s' ↔ (c ∧ m s = .ok a s') ∨ (¬ c ∧ m' s = .ok a s') := by
  by_cases h : c <;> simp [h]

theorem tryCatch_eq_ok {handler : ε → EStateM ε σ α} {a : α} {s' : σ} :
    tryCatch m handler s = .ok a s' ↔
      m s = .ok a s' ∨ ∃ e s₁, m s = .error e s₁ ∧ handler e s₁ = .ok a s' := by
  show EStateM.tryCatch m handler s = _ ↔ _
  unfold EStateM.tryCatch
  cases hm : m s with
  | ok b s₁ => simp
  | error e s₁ => simp [EStateM.Backtrackable.restore, EStateM.dummyRestore]

theorem tryCatch_of_error {handler : ε → EStateM ε σ α} {e : ε} {s₁ : σ} (h : m s = .error e s₁) :
    tryCatch m handler s = handler e s₁ := by
  show EStateM.tryCatch m handler s = _
  unfold EStateM.tryCatch
  rw [h]
  rfl

theorem map_eq_ok {f : α → β} {b : β} {s' : σ} :
    (f <$> m) s = .ok b s' ↔ ∃ a, m s = .ok a s' ∧ b = f a := by
  show EStateM.map f m s = _ ↔ _
  unfold EStateM.map
  cases m s with
  | ok a s₁ => simp [eq_comm, and_comm]
  | error e s₁ => simp

theorem except_bind_eq_ok {x : Except ε α} {f : α → Except ε β} {b : β} :
    (x >>= f) = .ok b ↔ ∃ a, x = .ok a ∧ f a = .ok b := by
  cases x with
  | ok a => simp [bind, Except.bind]
  | error e => simp [bind, Except.bind]

theorem except_ok_bind {a : α} {f : α → Except ε β} : (Except.ok a >>= f) = f a := rfl

@[simp] theorem except_pure_eq_ok {a b : α} : (pure a : Except ε α) = .ok b ↔ b = a := by
  show Except.ok a = .ok b ↔ _
  simp [eq_comm]

/-! ## Invariants -/

variable {I : σ → Prop}

theorem preserves_iff_ends : Preserves I m ↔ ∀ s, I s → Ends m s (fun _ => I) (fun _ => I) := by
  unfold Preserves Ends final
  refine forall_congr' fun s => ?_
  cases m s <;> rfl

theorem Preserves.ends (h : Preserves I m) (hs : I s) : Ends m s (fun _ => I) (fun _ => I) :=
  preserves_iff_ends.mp h s hs

theorem Preserves.ok (h : Preserves I m) {a : α} {s' : σ} (hs : I s) (hm : m s = .ok a s') : I s' :=
  (h.ends hs).ok hm

theorem preserves_pure {a : α} : Preserves I (pure a : EStateM ε σ α) := fun _ h => h

theorem preserves_throw {e : ε} : Preserves I (throw e : EStateM ε σ α) := fun _ h => h

theorem preserves_get : Preserves I (get : EStateM ε σ σ) := fun _ h => h

theorem preserves_modify {f : σ → σ} (h : ∀ s, I s → I (f s)) :
    Preserves I (modify f : EStateM ε σ PUnit) := h

theorem preserves_modifyGet {f : σ → α × σ} (h : ∀ s, I s → I (f s).2) :
    Preserves I (modifyGet f : EStateM ε σ α) := h

theorem Preserves.bind (hm : Preserves I m) (hk : ∀ a, Preserves I (k a)) : Preserves I (m >>= k) := by
  rw [preserves_iff_ends] at hm ⊢
  intro s hs
  rw [ends_bind]
  exact (hm s hs).mono (fun a s' h => (hk a).ends h) (fun _ _ h => h)

theorem preserves_ite {c : Prop} [Decidable c] {m' : EStateM ε σ α} (h : c → Preserves I m)
    (h' : ¬ c → Preserves I m') : Preserves I (if c then m else m') := by
  by_cases hc : c
  · rw [if_pos hc]; exact h hc
  · rw [if_neg hc]; exact h' hc

theorem Preserves.tryCatch {handler : ε → EStateM ε σ α} (hm : Preserves I m)
    (hh : ∀ e, Preserves I (handler e)) : Preserves I (tryCatch m handler) := by
  intro s hs
  have h₁ := hm s hs
  unfold final at *
  show I (match EStateM.tryCatch m handler s with
    | .ok _ s' => s'
    | .error _ s' => s')
  unfold EStateM.tryCatch
  cases hs : m s with
  | ok a s' => rw [hs] at h₁; exact h₁
  | error e s' =>
    rw [hs] at h₁
    exact hh e s' h₁

theorem leads_iff_ends {K : σ → Prop} :
    Leads K I m ↔ ∀ s, K s → Ends m s (fun _ => I) (fun _ => I) := by
  unfold Leads Ends final
  refine forall_congr' fun s => ?_
  cases m s <;> rfl

theorem Preserves.leads {K : σ → Prop} (h : Preserves I m) (hK : ∀ s, K s → I s) : Leads K I m :=
  fun s hs => h s (hK s hs)

/-- A program that keeps the stronger condition in front. -/
theorem Preserves.bind_leads {K : σ → Prop} (hm : Preserves K m) (hK : ∀ s, K s → I s)
    (hk : ∀ a, Leads K I (k a)) : Leads K I (m >>= k) := by
  rw [preserves_iff_ends] at hm
  rw [leads_iff_ends]
  intro s hs
  rw [ends_bind]
  exact (hm s hs).mono (fun a s' h => leads_iff_ends.mp (hk a) s' h) fun _ s' h => hK s' h

/-- A program that keeps the weaker condition behind. -/
theorem Leads.bind_preserves {K : σ → Prop} (hm : Leads K I m) (hk : ∀ a, Preserves I (k a)) :
    Leads K I (m >>= k) := by
  rw [leads_iff_ends] at hm ⊢
  intro s hs
  rw [ends_bind]
  exact (hm s hs).mono (fun a s' h => (hk a).ends h) fun _ _ h => h

theorem leads_ite {K : σ → Prop} {c : Prop} [Decidable c] {m' : EStateM ε σ α} (h : c → Leads K I m)
    (h' : ¬ c → Leads K I m') : Leads K I (if c then m else m') := by
  by_cases hc : c
  · rw [if_pos hc]; exact h hc
  · rw [if_neg hc]; exact h' hc

theorem keeps_iff_preserves {f : σ → γ} : Keeps f m ↔ ∀ c, Preserves (fun s => f s = c) m := by
  constructor
  · intro h c s hs
    exact (h s).trans hs
  · intro h s
    exact h (f s) s rfl

theorem Keeps.preserves {f : σ → γ} (h : Keeps f m) (p : γ → Prop) :
    Preserves (fun s => p (f s)) m := by
  intro s hs
  show p (f (final m s))
  rwa [h s]

theorem final_of_ok {a : α} {s' : σ} (h : m s = .ok a s') : final m s = s' := by
  unfold final
  rw [h]

theorem final_of_error {e : ε} {s' : σ} (h : m s = .error e s') : final m s = s' := by
  unfold final
  rw [h]

theorem Keeps.ok {f : σ → γ} {a : α} {s' : σ} (h : Keeps f m) (hm : m s = .ok a s') : f s' = f s := by
  rw [← final_of_ok hm]
  exact h s

theorem Keeps.error {f : σ → γ} {e : ε} {s' : σ} (h : Keeps f m) (hm : m s = .error e s') :
    f s' = f s := by
  rw [← final_of_error hm]
  exact h s

theorem Keeps.bind {f : σ → γ} (hm : Keeps f m) (hk : ∀ a, Keeps f (k a)) : Keeps f (m >>= k) := by
  rw [keeps_iff_preserves]
  intro c
  exact (keeps_iff_preserves.mp hm c).bind fun a => keeps_iff_preserves.mp (hk a) c

/-! ## Triples -/

/-- From a state with `I`, `m` ends in one with `Q` (success) or `E` (failure). -/
def Triple (I : σ → Prop) (m : EStateM ε σ α) (Q : α → σ → Prop) (E : σ → Prop) : Prop :=
  ∀ s, I s → Ends m s Q fun _ => E

section Triple

variable {E : σ → Prop} {R : β → σ → Prop}

theorem Triple.bind (hm : Triple I m Q E) (hk : ∀ a, Triple (Q a) (k a) R E) :
    Triple I (m >>= k) R E := by
  intro s hs
  rw [ends_bind]
  exact (hm s hs).mono (fun a s' h => hk a s' h) fun _ _ h => h

theorem Triple.mono {I' : σ → Prop} {Q' : α → σ → Prop} (h : Triple I m Q E) (hI : ∀ s, I' s → I s)
    (hQ : ∀ a s, Q a s → Q' a s) : Triple I' m Q' E :=
  fun s hs => (h s (hI s hs)).mono hQ fun _ _ h => h

theorem triple_pure {a : α} (h : ∀ s, I s → Q a s) : Triple I (pure a : EStateM ε σ α) Q E := h

theorem triple_throw {e : ε} (h : ∀ s, I s → E s) : Triple I (throw e : EStateM ε σ α) Q E := h

theorem triple_get_bind {k : σ → EStateM ε σ β} (h : ∀ a, Triple I (k a) R E) :
    Triple I (get >>= k) R E := fun s hs => h s s hs

theorem triple_ite {c : Prop} [Decidable c] {m' : EStateM ε σ α} (h : c → Triple I m Q E)
    (h' : ¬ c → Triple I m' Q E) : Triple I (if c then m else m') Q E := by
  by_cases hc : c
  · rw [if_pos hc]; exact h hc
  · rw [if_neg hc]; exact h' hc

end Triple

/-! ## Results -/

/-- Whatever `m` returns satisfies `Q`. -/
def Yields (Q : α → Prop) (m : EStateM ε σ α) : Prop := ∀ s a s', m s = .ok a s' → Q a

theorem yields_pure {P : α → Prop} {a : α} (h : P a) : Yields P (pure a : EStateM ε σ α) := by
  intro s b s' hb
  obtain ⟨rfl, -⟩ := pure_eq_ok.mp hb
  exact h

theorem yields_throw {P : α → Prop} {e : ε} : Yields P (throw e : EStateM ε σ α) := by
  intro s b s' hb
  exact (throw_ne_ok.mp hb).elim

theorem Yields.bind {P : α → Prop} {R : β → Prop} (hm : Yields P m) (hk : ∀ a, P a → Yields R (k a)) :
    Yields R (m >>= k) := by
  intro s b s' hb
  obtain ⟨a, s₁, ha, hb⟩ := bind_eq_ok.mp hb
  exact hk a (hm s a s₁ ha) s₁ b s' hb

theorem yields_bind {R : β → Prop} (hk : ∀ a, Yields R (k a)) : Yields R (m >>= k) := by
  intro s b s' hb
  obtain ⟨a, s₁, -, hb⟩ := bind_eq_ok.mp hb
  exact hk a s₁ b s' hb

/-- An invariant behind a program whose result is known. -/
theorem Preserves.bind_yields {P : α → Prop} (hm : Preserves I m) (hP : Yields P m)
    (hk : ∀ a, P a → Preserves I (k a)) : Preserves I (m >>= k) := by
  rw [preserves_iff_ends] at hm ⊢
  intro s hs
  rw [ends_bind]
  refine ends_of_runs (fun a s' hok => ?_) fun e s' herr => (hm s hs).error herr
  exact (hk a (hP s a s' hok)).ends ((hm s hs).ok hok)

theorem yields_ite {P : α → Prop} {c : Prop} [Decidable c] {m' : EStateM ε σ α} (h : Yields P m)
    (h' : Yields P m') : Yields P (if c then m else m') := by
  by_cases hc : c
  · rwa [if_pos hc]
  · rwa [if_neg hc]

/-! ## Errors -/

/-- Whatever `m` raises satisfies `R`. -/
def Raises (R : ε → Prop) (m : EStateM ε σ α) : Prop := ∀ s e s', m s = .error e s' → R e

section Raises

variable {R R' : ε → Prop}

theorem Raises.mono (h : Raises R m) (hR : ∀ e, R e → R' e) : Raises R' m :=
  fun s e s' he => hR e (h s e s' he)

theorem raises_pure {a : α} : Raises R (pure a : EStateM ε σ α) := by
  intro s e s' h
  exact absurd h nofun

theorem raises_throw {e : ε} (he : R e) : Raises R (throw e : EStateM ε σ α) := by
  intro s e' s' h
  obtain ⟨rfl, -⟩ := EStateM.Result.error.inj h
  exact he

theorem raises_get : Raises R (get : EStateM ε σ σ) := by
  intro s e s' h
  exact absurd h nofun

theorem raises_modify {f : σ → σ} : Raises R (modify f : EStateM ε σ PUnit) := by
  intro s e s' h
  exact absurd h nofun

theorem raises_modifyGet {f : σ → α × σ} : Raises R (modifyGet f : EStateM ε σ α) := by
  intro s e s' h
  exact absurd h nofun

theorem Raises.bind (hm : Raises R m) (hk : ∀ a, Raises R (k a)) : Raises R (m >>= k) := by
  intro s e s' h
  rcases bind_eq_error.mp h with h | ⟨a, s₁, -, h⟩
  · exact hm s e s' h
  · exact hk a s₁ e s' h

/-- The errors of a program behind one whose result is known. -/
theorem Raises.bind_yields {P : α → Prop} (hm : Raises R m) (hP : Yields P m)
    (hk : ∀ a, P a → Raises R (k a)) : Raises R (m >>= k) := by
  intro s e s' h
  rcases bind_eq_error.mp h with h | ⟨a, s₁, ha, h⟩
  · exact hm s e s' h
  · exact hk a (hP s a s₁ ha) s₁ e s' h

theorem Raises.map {f : α → β} (hm : Raises R m) : Raises R (f <$> m) := by
  rw [← bind_pure_comp]
  exact hm.bind fun _ => raises_pure

theorem Raises.tryCatch {handler : ε → EStateM ε σ α} (hm : Raises R m)
    (hh : ∀ e, R e → Raises R' (handler e)) : Raises R' (tryCatch m handler) := by
  intro s e s' h
  cases hs : m s with
  | ok a s₁ =>
    have hrun : MonadExcept.tryCatch m handler s = .ok a s₁ := tryCatch_eq_ok.mpr (.inl hs)
    rw [hrun] at h
    exact absurd h (by simp)
  | error e₁ s₁ =>
    rw [tryCatch_of_error hs] at h
    exact hh e₁ (hm s e₁ s₁ hs) s₁ e s' h

theorem raises_ite {c : Prop} [Decidable c] {m' : EStateM ε σ α} (h : Raises R m) (h' : Raises R m') :
    Raises R (if c then m else m') := by
  by_cases hc : c
  · rwa [if_pos hc]
  · rwa [if_neg hc]

end Raises

/-! ## Footprints

The state is seen as a family of parts.  A program's footprint is a list of parts that it may
change. -/

section Footprint

variable {ι : Type} {τ : ι → Type} {view : (i : ι) → σ → τ i} {S T : List ι}

/-- `m` changes no part outside `S`. -/
def Frames (view : (i : ι) → σ → τ i) (S : List ι) (m : EStateM ε σ α) : Prop :=
  ∀ i, i ∉ S → Keeps (view i) m

theorem Frames.mono (h : Frames view S m) (hST : S ⊆ T) : Frames view T m :=
  fun i hi => h i fun hi' => hi (hST hi')

theorem frames_pure {a : α} : Frames view S (pure a : EStateM ε σ α) := fun _ _ _ => rfl

theorem frames_throw {e : ε} : Frames view S (throw e : EStateM ε σ α) := fun _ _ _ => rfl

theorem frames_get : Frames view S (get : EStateM ε σ σ) := fun _ _ _ => rfl

theorem frames_modify {f : σ → σ} (h : ∀ i, i ∉ S → ∀ s, view i (f s) = view i s) :
    Frames view S (modify f : EStateM ε σ PUnit) := h

theorem frames_modifyGet {f : σ → α × σ} (h : ∀ i, i ∉ S → ∀ s, view i (f s).2 = view i s) :
    Frames view S (modifyGet f : EStateM ε σ α) := h

theorem Frames.bind (hm : Frames view S m) (hk : ∀ a, Frames view S (k a)) :
    Frames view S (m >>= k) := fun i hi => (hm i hi).bind fun a => hk a i hi

theorem Frames.map {f : α → β} (hm : Frames view S m) : Frames view S (f <$> m) := by
  have h : f <$> m = m >>= fun a => pure (f a) := (bind_pure_comp f m).symm
  rw [h]
  exact hm.bind fun _ => frames_pure

theorem frames_ite {c : Prop} [Decidable c] {m' : EStateM ε σ α} (h : Frames view S m)
    (h' : Frames view S m') : Frames view S (if c then m else m') := by
  by_cases hc : c
  · rwa [if_pos hc]
  · rwa [if_neg hc]

theorem Frames.tryCatch {handler : ε → EStateM ε σ α} (hm : Frames view S m)
    (hh : ∀ e, Frames view S (handler e)) : Frames view S (tryCatch m handler) := by
  intro i hi s
  have h₁ := hm i hi s
  unfold final at *
  show view i (match EStateM.tryCatch m handler s with
    | .ok _ s' => s'
    | .error _ s' => s') = view i s
  unfold EStateM.tryCatch
  cases hs : m s with
  | ok a s' => rw [hs] at h₁; exact h₁
  | error e s' =>
    rw [hs] at h₁
    exact (hh e i hi s').trans h₁

end Footprint

end Prog
