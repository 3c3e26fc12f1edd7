import TkeyFido2.Lib.Prog

/-!
# Two runs of one program

A part of the state that a program does not look at makes no difference to what it returns: runs from states
that differ there only end with the same value, or with the same error, and in states that differ there only.
`Blind K R m` says so of the program `m`, with one relation for the states in which the runs begin and one for
the states in which they end.
-/

namespace Prog

variable {ε σ α β : Type}

/-- The same value or the same error, in related states. -/
inductive Alike (R : σ → σ → Prop) : EStateM.Result ε σ α → EStateM.Result ε σ α → Prop
  | ok (a : α) {s t : σ} (h : R s t) : Alike R (.ok a s) (.ok a t)
  | error (e : ε) {s t : σ} (h : R s t) : Alike R (.error e s) (.error e t)

/-- Runs of `m` from related states end alike. -/
def Blind (K R : σ → σ → Prop) (m : EStateM ε σ α) : Prop := ∀ s t, K s t → Alike R (m s) (m t)

variable {K L R : σ → σ → Prop} {m m' : EStateM ε σ α} {k : α → EStateM ε σ β}

theorem Alike.mono {x y : EStateM.Result ε σ α} (h : Alike K x y) (hR : ∀ s t, K s t → R s t) :
    Alike R x y := by
  cases h with
  | ok a h => exact .ok a (hR _ _ h)
  | error e h => exact .error e (hR _ _ h)

theorem Blind.mono (h : Blind L R m) (hK : ∀ s t, K s t → L s t) : Blind K R m :=
  fun s t hst => h s t (hK s t hst)

theorem Blind.weaken (h : Blind K L m) (hR : ∀ s t, L s t → R s t) : Blind K R m :=
  fun s t hst => (h s t hst).mono hR

theorem blind_pure {a : α} : Blind R R (pure a : EStateM ε σ α) := fun _ _ h => .ok a h

theorem blind_throw {e : ε} : Blind R R (throw e : EStateM ε σ α) := fun _ _ h => .error e h

theorem blind_modify {f : σ → σ} (h : ∀ s t, K s t → R (f s) (f t)) :
    Blind K R (modify f : EStateM ε σ PUnit) := by
  intro s t hst
  show Alike R (EStateM.Result.ok PUnit.unit (f s)) (EStateM.Result.ok PUnit.unit (f t))
  exact .ok _ (h s t hst)

theorem blind_modifyGet {f : σ → α × σ} (h : ∀ s t, K s t → (f s).1 = (f t).1 ∧ R (f s).2 (f t).2) :
    Blind K R (modifyGet f : EStateM ε σ α) := by
  intro s t hst
  obtain ⟨hval, hR⟩ := h s t hst
  show Alike R (EStateM.Result.ok (f s).1 (f s).2) (EStateM.Result.ok (f t).1 (f t).2)
  rw [hval]
  exact .ok _ hR

/-- The states in which the first part ends may be related more closely. -/
theorem Blind.then (hm : Blind K L m) (hL : ∀ s t, L s t → R s t) (hk : ∀ a, Blind L R (k a)) :
    Blind K R (m >>= k) := by
  intro s t hst
  have h := hm s t hst
  show Alike R (EStateM.bind m k s) (EStateM.bind m k t)
  unfold EStateM.bind
  generalize m s = x at h
  generalize m t = y at h
  cases h with
  | ok a h => exact hk a _ _ h
  | error e h => exact .error e (hL _ _ h)

theorem Blind.bind (hm : Blind R R m) (hk : ∀ a, Blind R R (k a)) : Blind R R (m >>= k) :=
  hm.then (fun _ _ h => h) hk

/-- The second part may rely on what the first yields. -/
theorem Blind.bind_of {Q : α → Prop} (hm : Blind R R m) (hQ : ∀ s t a s', R s t → m s = .ok a s' → Q a)
    (hk : ∀ a, Q a → Blind R R (k a)) : Blind R R (m >>= k) := by
  intro s t hst
  have h := hm s t hst
  have hval : ∀ a s', m s = .ok a s' → Q a := fun a s' => hQ s t a s' hst
  show Alike R (EStateM.bind m k s) (EStateM.bind m k t)
  unfold EStateM.bind
  generalize m s = x at h hval
  generalize m t = y at h
  cases h with
  | ok a h => exact hk a (hval a _ rfl) _ _ h
  | error e h => exact .error e h

/-- What a program reads has to be the same in both states. -/
theorem blind_get_bind {k : σ → EStateM ε σ β} (hread : ∀ s t, K s t → k s = k t)
    (hk : ∀ s, Blind K R (k s)) : Blind K R (get >>= k) := by
  intro s t hst
  show Alike R (k s s) (k t t)
  rw [hread s t hst]
  exact hk t s t hst

theorem Blind.map {f : α → β} (hm : Blind K R m) : Blind K R (f <$> m) := by
  intro s t hst
  have h := hm s t hst
  show Alike R (EStateM.map f m s) (EStateM.map f m t)
  unfold EStateM.map
  generalize m s = x at h
  generalize m t = y at h
  cases h with
  | ok a h => exact .ok _ h
  | error e h => exact .error e h

theorem blind_ite {c : Prop} [Decidable c] (h : Blind K R m) (h' : Blind K R m') :
    Blind K R (if c then m else m') := by
  split
  · exact h
  · exact h'

theorem Blind.tryCatch {handler : ε → EStateM ε σ α} (hm : Blind K R m) (hh : ∀ e, Blind R R (handler e)) :
    Blind K R (MonadExceptOf.tryCatch m handler) := by
  intro s t hst
  have h := hm s t hst
  show Alike R (EStateM.tryCatch m handler s) (EStateM.tryCatch m handler t)
  unfold EStateM.tryCatch
  generalize m s = x at h
  generalize m t = y at h
  cases h with
  | ok a h => exact .ok a h
  | error e h => exact hh e _ _ h

end Prog
