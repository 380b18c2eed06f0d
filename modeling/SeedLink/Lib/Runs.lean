import Mathlib.Data.List.Basic

/-!
# Runs of a machine

A machine is a step function that may refuse an operation; a run carries out operations one after another. A
relation between the states of a model and those of the machine that every step keeps holds after every run
(`run_simulates`).
-/

namespace Machine

variable {σ τ ε : Type} (step : σ → ε → Option σ)

/-- The state after the operations, if none of them is refused. -/
def run (s : σ) (ops : List ε) : Option σ := ops.foldlM step s

variable {step} {s s' : σ} {op : ε} {ops ops' : List ε}

theorem run_cons : run step s (op :: ops) = (step s op).bind (run step · ops) := rfl

theorem run_append : run step s (ops ++ ops') = (run step s ops).bind (run step · ops') := by
  simp only [run, List.foldlM_append]
  rfl

theorem run_cons_of_step (h : step s op = some s') : run step s (op :: ops) = run step s' ops := by
  rw [run_cons, h]
  rfl

theorem run_append_of_run (h : run step s ops = some s') : run step s (ops ++ ops') = run step s' ops' := by
  rw [run_append, h]
  rfl

/-- What each step keeps between a model and the machine a run keeps. -/
theorem run_simulates {R : τ → σ → Prop} {f : τ → ε → τ}
    (hstep : ∀ {t s op s'}, R t s → step s op = some s' → R (f t op) s') {t : τ} (h : R t s)
    (hrun : run step s ops = some s') : R (ops.foldl f t) s' := by
  induction ops generalizing s t with
  | nil =>
    cases hrun
    exact h
  | cons op ops ih =>
    rw [run_cons] at hrun
    obtain ⟨s₁, hs₁, hrest⟩ := Option.bind_eq_some_iff.1 hrun
    exact ih (hstep h hs₁) hrest

end Machine
