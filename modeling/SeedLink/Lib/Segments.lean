import Mathlib.Data.List.Infix
import Mathlib.Order.Lattice

/-!
# Segments of a log

A log lists entries in the order of their numbers. What is read of it piece by piece, each piece from
behind the last number read, makes one contiguous segment.
-/

namespace Segments

variable {α κ : Type} [LinearOrder κ] {number : α → κ} {log ys zs : List α}

def Ascending (number : α → κ) (log : List α) : Prop := log.Pairwise fun a b => number a < number b

/-- The entries of an ascending log with large numbers are its end. -/
theorem Ascending.filter_suffix (h : Ascending number log) {p : κ → Prop} [DecidablePred p]
    (hp : ∀ m n, m < n → p m → p n) : log.filter (fun a => p (number a)) <:+ log := by
  induction log with
  | nil => exact List.suffix_refl _
  | cons a log ih =>
    rw [Ascending, List.pairwise_cons] at h
    by_cases ha : p (number a)
    · rw [List.filter_cons_of_pos (by simpa using ha), List.filter_eq_self.2]
      intro b hb
      simpa using hp _ _ (h.1 b hb) ha
    · rw [List.filter_cons_of_neg (by simpa using ha)]
      exact (ih h.2).trans (List.suffix_cons a log)

/-- Behind an entry come exactly those with larger numbers. -/
theorem Ascending.filter_gt {before after : List α} {y : α} (h : Ascending number (before ++ y :: after)) :
    (before ++ y :: after).filter (fun a => number y < number a) = after := by
  rw [Ascending, List.pairwise_append, List.pairwise_cons] at h
  obtain ⟨-, ⟨hafter, -⟩, hbefore⟩ := h
  rw [List.filter_append, List.filter_eq_nil_iff.2, List.nil_append, List.filter_cons_of_neg (by simp),
    List.filter_eq_self.2]
  · intro b hb
    simpa using hafter b hb
  · intro a ha
    have := hbefore a ha y List.mem_cons_self
    simpa using le_of_lt this

/-- A segment is continued by what follows its last entry. -/
theorem Ascending.resume (h : Ascending number log) {y : α} (hys : ys <:+: log)
    (hlast : ys.getLast? = some y) (hzs : zs <+: log.filter (fun a => number y < number a)) :
    ys ++ zs <:+: log := by
  obtain ⟨before, after, rfl⟩ := hys
  obtain ⟨init, rfl⟩ := List.getLast?_eq_some_iff.1 hlast
  have hshape : before ++ (init ++ [y]) ++ after = (before ++ init) ++ y :: after := by simp
  rw [hshape] at h hzs
  rw [h.filter_gt] at hzs
  obtain ⟨rest, rfl⟩ := hzs
  exact ⟨before, rest, by simp⟩

/-- With everything that follows its last entry, a segment becomes the end of the log. -/
theorem Ascending.resume_suffix (h : Ascending number log) {y : α} (hys : ys <:+: log)
    (hlast : ys.getLast? = some y) : ys ++ log.filter (fun a => number y < number a) <:+ log := by
  obtain ⟨before, after, rfl⟩ := hys
  obtain ⟨init, rfl⟩ := List.getLast?_eq_some_iff.1 hlast
  have hshape : before ++ (init ++ [y]) ++ after = (before ++ init) ++ y :: after := by simp
  rw [hshape] at h ⊢
  rw [h.filter_gt]
  exact ⟨before, by simp⟩

end Segments
