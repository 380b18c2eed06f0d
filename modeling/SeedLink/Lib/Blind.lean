import SeedLink.Lib.Alike

/-!
# Programs that are blind to a portion of the state

A program is blind to a portion of its state (`Blind`) when replacing the portion before a run comes to the same
as replacing it afterwards. So it neither looks at the portion nor changes it (`Blind.keeps`), and states that
differ there only, however their portions are related, are taken through it in lockstep (`Blind.lockstep`).
-/

namespace StateExc
universe u

/-- What can be read off a state, and be replaced in it. -/
structure Portion (σ π : Type u) where
  get : σ → π
  put : π → σ → σ
  put_get : ∀ s, put (get s) s = s
  get_put : ∀ p s, get (put p s) = p

variable {ε σ π α β : Type u}

/-- The same end in another state. -/
def endIn (f : σ → σ) : EStateM.Result ε σ α → EStateM.Result ε σ α
  | .ok a s => .ok a (f s)
  | .error e s => .error e (f s)

def Blind (L : Portion σ π) (x : EStateM ε σ α) : Prop := ∀ p s, x (L.put p s) = endIn (L.put p) (x s)

/-- The states differ in the portion only, and `S` relates what they have there. -/
structure Portion.Beside (L : Portion σ π) (S : π → π → Prop) (s t : σ) : Prop where
  portion : S (L.get s) (L.get t)
  eq : t = L.put (L.get t) s

namespace Blind
variable {L : Portion σ π} {x y : EStateM ε σ α}

theorem pure (a : α) : Blind L (pure a : EStateM ε σ α) := fun _ _ => rfl

theorem throw (e : ε) : Blind L (throw e : EStateM ε σ α) := fun _ _ => rfl

theorem modify {f : σ → σ} (hf : ∀ p s, f (L.put p s) = L.put p (f s)) :
    Blind L (modify f : EStateM ε σ PUnit) := fun p s => congrArg (EStateM.Result.ok _) (hf p s)

theorem bind {f : α → EStateM ε σ β} (h : Blind L x) (hf : ∀ a, Blind L (f a)) : Blind L (x >>= f) := by
  intro p s
  show EStateM.bind x f (L.put p s) = endIn (L.put p) (EStateM.bind x f s)
  unfold EStateM.bind
  rw [h p s]
  cases x s with
  | ok a s' => exact hf a p s'
  | error e s' => rfl

/-- The program behind `get` does not depend on the portion either. -/
theorem get_bind {f : σ → EStateM ε σ β} (hf : ∀ s, Blind L (f s)) (hsame : ∀ p s, f (L.put p s) = f s) :
    Blind L (get >>= f) := by
  intro p s
  show f (L.put p s) (L.put p s) = _
  rw [hsame]
  exact hf s p s

theorem map {f : α → β} (h : Blind L x) : Blind L (f <$> x) := by
  intro p s
  show EStateM.map f x (L.put p s) = endIn (L.put p) (EStateM.map f x s)
  unfold EStateM.map
  rw [h p s]
  cases x s <;> rfl

theorem ite {c : Prop} [Decidable c] (h : Blind L x) (h' : Blind L y) : Blind L (if c then x else y) := by
  split
  · exact h
  · exact h'

theorem tryCatch {h : ε → EStateM ε σ α} (hx : Blind L x) (hh : ∀ e, Blind L (h e)) : Blind L (tryCatch x h) := by
  intro p s
  show EStateM.tryCatch x h (L.put p s) = endIn (L.put p) (EStateM.tryCatch x h s)
  unfold EStateM.tryCatch EStateM.Backtrackable.restore EStateM.Backtrackable.save EStateM.nonBacktrackable
  simp only [hx p s]
  cases x s with
  | ok a s' => rfl
  | error e s' => exact hh e p s'

/-- A blind program leaves the portion as it is. -/
theorem keeps (h : Blind L x) (s : σ) : wp x (fun _ s' => L.get s' = L.get s) (fun _ s' => L.get s' = L.get s) s := by
  have hsame := h (L.get s) s
  rw [L.put_get] at hsame
  unfold wp
  cases hx : x s with
  | ok a s' =>
    rw [hx] at hsame
    show L.get s' = L.get s
    rw [(EStateM.Result.ok.inj hsame).2, L.get_put]
  | error e s' =>
    rw [hx] at hsame
    show L.get s' = L.get s
    rw [(EStateM.Result.error.inj hsame).2, L.get_put]

/-- States that differ in the portion only still do so behind a blind program, which ends the same. -/
theorem lockstep {S : π → π → Prop} (h : Blind L x) : Lockstep (L.Beside S) Eq x x := by
  rintro s t ⟨hS, ht⟩
  have hbeside : ∀ s', L.get s' = L.get s → L.Beside S s' (L.put (L.get t) s') := by
    intro s' hs'
    refine ⟨?_, ?_⟩
    · rw [L.get_put, hs']
      exact hS
    · rw [L.get_put]
  have hend := h (L.get t) s
  rw [← ht] at hend
  have hkeeps := h.keeps s
  unfold wp at hkeeps
  unfold Alike
  rw [hend]
  cases hx : x s with
  | ok a s' =>
    rw [hx] at hkeeps
    exact ⟨rfl, hbeside s' hkeeps⟩
  | error e s' =>
    rw [hx] at hkeeps
    exact ⟨rfl, hbeside s' hkeeps⟩

end Blind

end StateExc
