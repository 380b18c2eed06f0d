import SeedLink.Lib.Wp

/-!
# Two programs side by side

`Alike R E x y s t`: the runs of `x` from `s` and of `y` from `t` both return, and then the same value, or
both raise, and then exceptions that `E` relates; either way `R` relates the states they end in. `Lockstep`:
so they do from any states that `R` relates. The rules below run the two programs step by step, in step. The
programs may have different types of states.
-/

namespace StateExc
universe u
variable {ε σ τ α β : Type u}

/-- Runs that end alike. -/
def Alike (R : σ → τ → Prop) (E : ε → ε → Prop) (x : EStateM ε σ α) (y : EStateM ε τ α) (s : σ) (t : τ) : Prop :=
  match x s, y t with
  | .ok a s', .ok b t' => a = b ∧ R s' t'
  | .error e s', .error e' t' => E e e' ∧ R s' t'
  | _, _ => False

namespace Alike
variable {R : σ → τ → Prop} {E : ε → ε → Prop} {x : EStateM ε σ α} {y : EStateM ε τ α} {s s' : σ} {t t' : τ}

theorem ok_iff {a : α} (hx : x s = .ok a s') : Alike R E x y s t ↔ ∃ t', y t = .ok a t' ∧ R s' t' := by
  unfold Alike
  rw [hx]
  cases y t with
  | ok b t' => simp [eq_comm]
  | error e t' => simp

theorem error_iff {e : ε} (hx : x s = .error e s') :
    Alike R E x y s t ↔ ∃ e' t', y t = .error e' t' ∧ E e e' ∧ R s' t' := by
  unfold Alike
  rw [hx]
  cases y t with
  | ok b t' => simp
  | error e t' => simp

/-- The end of the first run decides how the second one ends. -/
theorem of_ok {a : α} (h : Alike R E x y s t) (hx : x s = .ok a s') : ∃ t', y t = .ok a t' ∧ R s' t' :=
  (ok_iff hx).1 h

theorem of_error {e : ε} (h : Alike R E x y s t) (hx : x s = .error e s') :
    ∃ e' t', y t = .error e' t' ∧ E e e' ∧ R s' t' :=
  (error_iff hx).1 h

theorem pure (a : α) (h : R s t) : Alike R E (pure a) (pure a) s t := ⟨rfl, h⟩

theorem throw {e e' : ε} (he : E e e') (h : R s t) :
    Alike R E (throw e : EStateM ε σ α) (throw e' : EStateM ε τ α) s t := ⟨he, h⟩

theorem modify {f : σ → σ} {g : τ → τ} (h : R (f s) (g t)) :
    Alike R E (modify f : EStateM ε σ PUnit) (modify g) s t := ⟨rfl, h⟩

theorem set (h : R s' t') : Alike R E (set s' : EStateM ε σ PUnit) (set t') s t := ⟨rfl, h⟩

theorem bind {f : α → EStateM ε σ β} {g : α → EStateM ε τ β} (h : Alike R E x y s t)
    (hf : ∀ a s' t', R s' t' → Alike R E (f a) (g a) s' t') : Alike R E (x >>= f) (y >>= g) s t := by
  show Alike R E (EStateM.bind x f) (EStateM.bind y g) s t
  cases hx : x s with
  | ok a s' =>
    obtain ⟨t', hy, hr⟩ := h.of_ok hx
    have := hf a s' t' hr
    unfold Alike EStateM.bind
    rw [hx, hy]
    exact this
  | error e s' =>
    obtain ⟨e', t', hy, he, hr⟩ := h.of_error hx
    unfold Alike EStateM.bind
    rw [hx, hy]
    exact ⟨he, hr⟩

/-- The rests may use what the first step of one program says of its state. -/
theorem bind_of {f : α → EStateM ε σ β} {g : α → EStateM ε τ β} {Q : σ → Prop} (h : Alike R E x y s t)
    (hx : wp x (fun _ => Q) (fun _ _ => True) s)
    (hf : ∀ a s' t', Q s' → R s' t' → Alike R E (f a) (g a) s' t') : Alike R E (x >>= f) (y >>= g) s t := by
  cases hrun : x s with
  | ok a s' =>
    obtain ⟨t', hy, hr⟩ := h.of_ok hrun
    have hrest := hf a s' t' (wp_ok (Q := fun _ => Q) hx hrun) hr
    show Alike R E (EStateM.bind x f) (EStateM.bind y g) s t
    unfold Alike EStateM.bind
    rw [hrun, hy]
    exact hrest
  | error e s' =>
    obtain ⟨e', t', hy, he, hr⟩ := h.of_error hrun
    show Alike R E (EStateM.bind x f) (EStateM.bind y g) s t
    unfold Alike EStateM.bind
    rw [hrun, hy]
    exact ⟨he, hr⟩

/-- Two first steps that return decide where the rest starts. -/
theorem bind_ok {f : α → EStateM ε σ β} {g : α → EStateM ε τ β} {a : α} (hx : x s = .ok a s') (hy : y t = .ok a t')
    (h : Alike R E (f a) (g a) s' t') : Alike R E (x >>= f) (y >>= g) s t := by
  show Alike R E (EStateM.bind x f) (EStateM.bind y g) s t
  unfold Alike EStateM.bind
  rw [hx, hy]
  exact h

/-- Each program goes on with its own state. -/
theorem get_bind {f : σ → EStateM ε σ β} {g : τ → EStateM ε τ β} (h : Alike R E (f s) (g t) s t) :
    Alike R E (get >>= f) (get >>= g) s t := h

theorem map {f : α → β} (h : Alike R E x y s t) : Alike R E (f <$> x) (f <$> y) s t := by
  show Alike R E (EStateM.map f x) (EStateM.map f y) s t
  cases hx : x s with
  | ok a s' =>
    obtain ⟨t', hy, hr⟩ := h.of_ok hx
    unfold Alike EStateM.map
    rw [hx, hy]
    exact ⟨rfl, hr⟩
  | error e s' =>
    obtain ⟨e', t', hy, he, hr⟩ := h.of_error hx
    unfold Alike EStateM.map
    rw [hx, hy]
    exact ⟨he, hr⟩

theorem ite {p : Prop} [Decidable p] {x' : EStateM ε σ α} {y' : EStateM ε τ α} (h : p → Alike R E x y s t)
    (h' : ¬ p → Alike R E x' y' s t) : Alike R E (if p then x else x') (if p then y else y') s t := by
  split
  · exact h ‹_›
  · exact h' ‹_›

/-- Related exceptions are handled in related states. -/
theorem tryCatch {h : ε → EStateM ε σ α} {h' : ε → EStateM ε τ α} (hxy : Alike R E x y s t)
    (hh : ∀ e e' s' t', E e e' → R s' t' → Alike R E (h e) (h' e') s' t') :
    Alike R E (tryCatch x h) (tryCatch y h') s t := by
  show Alike R E (EStateM.tryCatch x h) (EStateM.tryCatch y h') s t
  cases hx : x s with
  | ok a s' =>
    obtain ⟨t', hy, hr⟩ := hxy.of_ok hx
    unfold Alike EStateM.tryCatch EStateM.Backtrackable.restore EStateM.Backtrackable.save
      EStateM.nonBacktrackable
    rw [hx, hy]
    exact ⟨rfl, hr⟩
  | error e s' =>
    obtain ⟨e', t', hy, he, hr⟩ := hxy.of_error hx
    have := hh e e' s' t' he hr
    unfold Alike EStateM.tryCatch EStateM.Backtrackable.restore EStateM.Backtrackable.save
      EStateM.nonBacktrackable
    rw [hx, hy]
    exact this

end Alike

/-- From related states the two programs end alike. -/
def Lockstep (R : σ → τ → Prop) (E : ε → ε → Prop) (x : EStateM ε σ α) (y : EStateM ε τ α) : Prop :=
  ∀ s t, R s t → Alike R E x y s t

namespace Lockstep
variable {R : σ → τ → Prop} {E : ε → ε → Prop} {x x' : EStateM ε σ α} {y y' : EStateM ε τ α}

theorem pure (a : α) : Lockstep R E (pure a) (pure a) := fun _ _ h => .pure a h

theorem throw {e e' : ε} (he : E e e') : Lockstep R E (throw e : EStateM ε σ α) (throw e' : EStateM ε τ α) :=
  fun _ _ h => .throw he h

theorem modify {f : σ → σ} {g : τ → τ} (h : ∀ s t, R s t → R (f s) (g t)) :
    Lockstep R E (modify f : EStateM ε σ PUnit) (modify g) := fun s t hst => .modify (h s t hst)

theorem bind {f : α → EStateM ε σ β} {g : α → EStateM ε τ β} (h : Lockstep R E x y)
    (hf : ∀ a, Lockstep R E (f a) (g a)) : Lockstep R E (x >>= f) (y >>= g) :=
  fun s t hst => (h s t hst).bind fun a s' t' => hf a s' t'

/-- The programs behind `get` may use what related states have in common. -/
theorem get_bind {f : σ → EStateM ε σ β} {g : τ → EStateM ε τ β} (h : ∀ s t, R s t → Lockstep R E (f s) (g t)) :
    Lockstep R E (get >>= f) (get >>= g) := fun s t hst => .get_bind (h s t hst s t hst)

theorem map {f : α → β} (h : Lockstep R E x y) : Lockstep R E (f <$> x) (f <$> y) := fun s t hst => (h s t hst).map

theorem ite {p : Prop} [Decidable p] (h : Lockstep R E x y) (h' : Lockstep R E x' y') :
    Lockstep R E (if p then x else x') (if p then y else y') :=
  fun s t hst => .ite (fun _ => h s t hst) fun _ => h' s t hst

theorem tryCatch {h : ε → EStateM ε σ α} {h' : ε → EStateM ε τ α} (hxy : Lockstep R E x y)
    (hh : ∀ e e', E e e' → Lockstep R E (h e) (h' e')) : Lockstep R E (tryCatch x h) (tryCatch y h') :=
  fun s t hst => (hxy s t hst).tryCatch fun e e' s' t' he => hh e e' he s' t'

end Lockstep

end StateExc
