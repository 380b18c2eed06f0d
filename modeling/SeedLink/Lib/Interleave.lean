import Mathlib.Data.List.Basic

/-!
# Interleavings

`Interleaves as bs cs`: `cs` is made of `as` and `bs`, each in its own order. A relation between the
states of three machines that every step of the first and every step of the second keeps, the third
following along, relates the runs of `as`, `bs` and `cs` (`Interleaves.foldl`).
-/

variable {α σ τ υ : Type}

inductive Interleaves : List α → List α → List α → Prop
  | nil : Interleaves [] [] []
  | left {as bs cs : List α} (a : α) (h : Interleaves as bs cs) : Interleaves (a :: as) bs (a :: cs)
  | right {as bs cs : List α} (b : α) (h : Interleaves as bs cs) : Interleaves as (b :: bs) (b :: cs)

namespace Interleaves

variable {as bs cs : List α}

/-- The run of an interleaving follows the runs of its parts. -/
theorem foldl {R : σ → τ → υ → Prop} {f : σ → α → σ} {g : τ → α → τ} {k : υ → α → υ}
    (h : Interleaves as bs cs) (hf : ∀ a ∈ as, ∀ x y z, R x y z → R (f x a) y (k z a))
    (hg : ∀ b ∈ bs, ∀ x y z, R x y z → R x (g y b) (k z b)) {x : σ} {y : τ} {z : υ} (h₀ : R x y z) :
    R (as.foldl f x) (bs.foldl g y) (cs.foldl k z) := by
  induction h generalizing x y z with
  | nil => exact h₀
  | left a _ ih =>
    rw [List.foldl_cons, List.foldl_cons]
    refine ih (fun a' ha' => hf a' (List.mem_cons_of_mem _ ha')) hg ?_
    exact hf a List.mem_cons_self x y z h₀
  | right b _ ih =>
    rw [List.foldl_cons, List.foldl_cons]
    refine ih hf (fun b' hb' => hg b' (List.mem_cons_of_mem _ hb')) ?_
    exact hg b List.mem_cons_self x y z h₀

end Interleaves
