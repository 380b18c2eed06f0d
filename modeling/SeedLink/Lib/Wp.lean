import Mathlib.Logic.Basic
import Mathlib.Order.Defs.Unbundled
import Mathlib.Tactic.Common

/-!
# Weakest preconditions for programs with state and exceptions

`EStateM ε σ` programs read as `σ → result`, an exception keeping the state it was raised in.
`wp x Q E s`: the run of `x` from `s` ends in `Q a s'` when it returns `a`, and in `E e s'` when it
raises `e`. The rules below run a program step by step; `wp_mono` weakens both postconditions and
`wp_and` joins two facts about one run. `Keeps R x`: however `x` ends, its final state is related to
its first. `Leads P Q F x`: from a state of `P` it returns into `Q` or raises into `F`.
-/

namespace StateExc
universe u
variable {ε σ α β : Type u}

/-- The run of `x` from `s` returns into `Q` or raises into `E`. -/
def wp (x : EStateM ε σ α) (Q : α → σ → Prop) (E : ε → σ → Prop) (s : σ) : Prop :=
  match x s with
  | .ok a s' => Q a s'
  | .error e s' => E e s'

section rules
variable {Q : α → σ → Prop} {E : ε → σ → Prop} {s : σ}

theorem wp_iff_of_ok {x : EStateM ε σ α} {a : α} {s' : σ} (h : x s = .ok a s') : wp x Q E s ↔ Q a s' := by
  simp [wp, h]

theorem wp_iff_of_error {x : EStateM ε σ α} {e : ε} {s' : σ} (h : x s = .error e s') :
    wp x Q E s ↔ E e s' := by
  simp [wp, h]

theorem wp_ok {x : EStateM ε σ α} {a : α} {s' : σ} (h : wp x Q E s) (hx : x s = .ok a s') : Q a s' :=
  (wp_iff_of_ok hx).1 h

theorem wp_error {x : EStateM ε σ α} {e : ε} {s' : σ} (h : wp x Q E s) (hx : x s = .error e s') :
    E e s' :=
  (wp_iff_of_error hx).1 h

/-- A run that cannot raise returns. -/
theorem wp_exists {x : EStateM ε σ α} (h : wp x Q (fun _ _ => False) s) :
    ∃ a s', x s = .ok a s' ∧ Q a s' := by
  unfold wp at h
  split at h
  · exact ⟨_, _, ‹_›, h⟩
  · exact h.elim

/-- A run that cannot return raises. -/
theorem wp_exists_error {x : EStateM ε σ α} (h : wp x (fun _ _ => False) E s) :
    ∃ e s', x s = .error e s' ∧ E e s' := by
  unfold wp at h
  split at h
  · exact h.elim
  · exact ⟨_, _, ‹_›, h⟩

/-- The value that the run of `x` from `s` returns. -/
def returned (x : EStateM ε σ α) (s : σ) : Option α :=
  match x s with
  | .ok a _ => some a
  | .error _ _ => none

theorem exists_of_returned {x : EStateM ε σ α} {a : α} (h : returned x s = some a) :
    ∃ s', x s = .ok a s' := by
  unfold returned at h
  split at h
  · cases h
    exact ⟨_, ‹_›⟩
  · cases h

theorem wp_returned (x : EStateM ε σ α) (s : σ) :
    wp x (fun a _ => returned x s = some a) (fun _ _ => returned x s = none) s := by
  unfold wp returned
  cases x s <;> rfl

theorem exists_of_seq {x : EStateM ε σ α} {f : α → EStateM ε σ β} {b : β} {s' : σ}
    (h : (x >>= f) s = .ok b s') : ∃ a s₁, x s = .ok a s₁ ∧ f a s₁ = .ok b s' := by
  change EStateM.bind x f s = _ at h
  unfold EStateM.bind at h
  split at h
  · exact ⟨_, _, ‹_›, h⟩
  · cases h

/-- What returns hands its value and its state on. -/
theorem seq_ok {x : EStateM ε σ α} {f : α → EStateM ε σ β} {a : α} {s' : σ} (h : x s = .ok a s') :
    (x >>= f) s = f a s' := by
  show EStateM.bind x f s = _
  unfold EStateM.bind
  rw [h]

theorem seq_error {x : EStateM ε σ α} {f : α → EStateM ε σ β} {e : ε} {s' : σ} (h : x s = .error e s') :
    (x >>= f) s = .error e s' := by
  show EStateM.bind x f s = _
  unfold EStateM.bind
  rw [h]

theorem wp_mono {Q' : α → σ → Prop} {E' : ε → σ → Prop} {x : EStateM ε σ α} (h : wp x Q E s)
    (hQ : ∀ a s', Q a s' → Q' a s') (hE : ∀ e s', E e s' → E' e s') : wp x Q' E' s := by
  unfold wp at h ⊢
  split at h
  · exact hQ _ _ h
  · exact hE _ _ h

theorem wp_and {Q' : α → σ → Prop} {E' : ε → σ → Prop} {x : EStateM ε σ α} (h : wp x Q E s)
    (h' : wp x Q' E' s) : wp x (fun a s' => Q a s' ∧ Q' a s') (fun e s' => E e s' ∧ E' e s') s := by
  unfold wp at h h' ⊢
  split at h <;> simp_all

@[simp] theorem wp_pure (a : α) : wp (pure a : EStateM ε σ α) Q E s = Q a s := rfl

@[simp] theorem wp_bind {Q : β → σ → Prop} (x : EStateM ε σ α) (f : α → EStateM ε σ β) :
    wp (x >>= f) Q E s = wp x (fun a s' => wp (f a) Q E s') E s := by
  show wp (EStateM.bind x f) Q E s = _
  unfold wp EStateM.bind
  cases x s <;> rfl

@[simp] theorem wp_throw (e : ε) : wp (throw e : EStateM ε σ α) Q E s = E e s := rfl

@[simp] theorem wp_get {Q : σ → σ → Prop} : wp (get : EStateM ε σ σ) Q E s = Q s s := rfl

@[simp] theorem wp_set {Q : PUnit → σ → Prop} (s' : σ) : wp (set s' : EStateM ε σ PUnit) Q E s = Q ⟨⟩ s' := rfl

@[simp] theorem wp_modify {Q : PUnit → σ → Prop} (f : σ → σ) :
    wp (modify f : EStateM ε σ PUnit) Q E s = Q ⟨⟩ (f s) := rfl

theorem get_run (s : σ) : (get : EStateM ε σ σ) s = .ok s s := rfl

@[simp] theorem wp_map {Q : β → σ → Prop} (f : α → β) (x : EStateM ε σ α) :
    wp (f <$> x) Q E s = wp x (fun a s' => Q (f a) s') E s := by
  show wp (EStateM.map f x) Q E s = _
  unfold wp EStateM.map
  cases x s <;> rfl

@[simp] theorem wp_ite (p : Prop) [Decidable p] (x y : EStateM ε σ α) :
    wp (if p then x else y) Q E s = if p then wp x Q E s else wp y Q E s := by
  split <;> rfl

/-- An exception is handled in the state it was raised in. -/
@[simp] theorem wp_tryCatch (x : EStateM ε σ α) (h : ε → EStateM ε σ α) :
    wp (tryCatch x h) Q E s = wp x Q (fun e s' => wp (h e) Q E s') s := by
  show wp (EStateM.tryCatch x h) Q E s = _
  unfold wp EStateM.tryCatch EStateM.Backtrackable.restore EStateM.Backtrackable.save
    EStateM.nonBacktrackable
  cases hx : x s <;> rfl

end rules

/-! ### Relations every run respects -/

/-- However `x` ends, it ends in a state that `R` relates to the one it started in. -/
def Keeps (R : σ → σ → Prop) (x : EStateM ε σ α) : Prop :=
  ∀ s, wp x (fun _ => R s) (fun _ => R s) s

namespace Keeps
variable {R : σ → σ → Prop} {x : EStateM ε σ α}

theorem pure [Std.Refl R] (a : α) : Keeps R (Pure.pure a : EStateM ε σ α) := fun s => refl s

theorem throw [Std.Refl R] (e : ε) : Keeps R (MonadExcept.throw e : EStateM ε σ α) := fun s => refl s

theorem get [Std.Refl R] : Keeps R (MonadState.get : EStateM ε σ σ) := fun s => refl s

theorem modify {f : σ → σ} (h : ∀ s, R s (f s)) :
    Keeps R (modify f : EStateM ε σ PUnit) := fun s => h s

theorem bind [IsTrans σ R] {f : α → EStateM ε σ β} (hx : Keeps R x) (hf : ∀ a, Keeps R (f a)) :
    Keeps R (x >>= f) := by
  intro s
  rw [wp_bind]
  exact wp_mono (hx s) (fun a s' h => wp_mono (hf a s') (fun _ _ => IsTrans.trans _ _ _ h) fun _ _ => IsTrans.trans _ _ _ h)
    fun _ _ h => h

theorem map {f : α → β} (hx : Keeps R x) : Keeps R (f <$> x) := by
  intro s
  rw [wp_map]
  exact hx s

theorem ite {p : Prop} [Decidable p] {y : EStateM ε σ α} (hx : Keeps R x) (hy : Keeps R y) :
    Keeps R (if p then x else y) := by
  split
  · exact hx
  · exact hy

theorem tryCatch [IsTrans σ R] {h : ε → EStateM ε σ α} (hx : Keeps R x) (hh : ∀ e, Keeps R (h e)) :
    Keeps R (tryCatch x h) := by
  intro s
  rw [wp_tryCatch]
  exact wp_mono (hx s) (fun _ _ h => h) fun e s' hr =>
    wp_mono (hh e s') (fun _ _ => IsTrans.trans _ _ _ hr) fun _ _ => IsTrans.trans _ _ _ hr

theorem ok (h : Keeps R x) {s s' : σ} {a : α} (hx : x s = .ok a s') : R s s' :=
  wp_ok (Q := fun _ => R s) (h s) hx

theorem error (h : Keeps R x) {s s' : σ} {e : ε} (hx : x s = .error e s') : R s s' :=
  wp_error (E := fun _ => R s) (h s) hx

end Keeps

/-! ### From one kind of state to another -/

/-- From a state of `P`, `x` returns into `Q` or raises into `F`. -/
def Leads (P Q F : σ → Prop) (x : EStateM ε σ α) : Prop := ∀ s, P s → wp x (fun _ => Q) (fun _ => F) s

namespace Leads
variable {P Q Q' F F' : σ → Prop} {x : EStateM ε σ α}

theorem pure (h : ∀ s, P s → Q s) (a : α) : Leads P Q F (Pure.pure a : EStateM ε σ α) := h

theorem throw (h : ∀ s, P s → F s) (e : ε) : Leads P Q F (MonadExcept.throw e : EStateM ε σ α) := h

theorem modify {f : σ → σ} (h : ∀ s, P s → Q (f s)) : Leads P Q F (modify f : EStateM ε σ PUnit) := h

theorem bind {f : α → EStateM ε σ β} (hx : Leads P Q F x) (hf : ∀ a, Leads Q Q' F (f a)) : Leads P Q' F (x >>= f) := by
  intro s hs
  rw [wp_bind]
  exact wp_mono (hx s hs) (fun a s' h => hf a s' h) fun _ _ h => h

/-- The program behind `get` may use what holds of the state. -/
theorem get_bind {f : σ → EStateM ε σ β} (hf : ∀ s, P s → wp (f s) (fun _ => Q) (fun _ => F) s) :
    Leads P Q F (MonadState.get >>= f) := hf

theorem map {f : α → β} (hx : Leads P Q F x) : Leads P Q F (f <$> x) := by
  intro s hs
  rw [wp_map]
  exact hx s hs

theorem ite {p : Prop} [Decidable p] {y : EStateM ε σ α} (hx : Leads P Q F x) (hy : Leads P Q F y) :
    Leads P Q F (if p then x else y) := by
  split
  · exact hx
  · exact hy

theorem tryCatch {h : ε → EStateM ε σ α} (hx : Leads P Q F x) (hh : ∀ e, Leads F Q F' (h e)) :
    Leads P Q F' (tryCatch x h) := by
  intro s hs
  rw [wp_tryCatch]
  exact wp_mono (hx s hs) (fun _ _ h => h) fun e s' h => hh e s' h

theorem mono {P' : σ → Prop} (hx : Leads P Q F x) (hP : ∀ s, P' s → P s) (hQ : ∀ s, Q s → Q' s)
    (hF : ∀ s, F s → F' s) : Leads P' Q' F' x :=
  fun s hs => wp_mono (hx s (hP s hs)) (fun _ _ h => hQ _ h) fun _ _ h => hF _ h

end Leads

end StateExc
