import Mathlib.Data.List.Sort

/-!
# Stable sorting by a key

A list that is sorted by a key is settled by what it has for each key (`eq_of_filter_key`). Insertion by keys
leaves the elements with one key in their order (`filter_key_insertionSort`), so two lists are sorted to the
same list just when they have the same for each key (`insertionSort_eq_iff`).
-/

namespace Stable

variable {α κ : Type} [DecidableEq κ] {key : α → κ} {r : κ → κ → Prop}

theorem eq_of_filter_key (anti : ∀ x y, r x y → r y x → x = y) {l l' : List α}
    (hl : l.Pairwise fun a b => r (key a) (key b)) (hl' : l'.Pairwise fun a b => r (key a) (key b))
    (h : ∀ x, l.filter (key · = x) = l'.filter (key · = x)) : l = l' := by
  have hmem : ∀ a, a ∈ l ↔ a ∈ l' := by
    intro a
    have := congrArg (a ∈ ·) (h (key a))
    simpa using this
  induction l generalizing l' with
  | nil =>
    cases l' with
    | nil => rfl
    | cons b l' => simpa using (hmem b).2 List.mem_cons_self
  | cons a l ih =>
    cases l' with
    | nil => simpa using (hmem a).1 List.mem_cons_self
    | cons b l' =>
      obtain ⟨ha, htl⟩ := List.pairwise_cons.1 hl
      obtain ⟨hb, htl'⟩ := List.pairwise_cons.1 hl'
      -- the first elements have the least key
      have hkey : key a = key b := by
        rcases List.mem_cons.1 ((hmem a).1 List.mem_cons_self) with rfl | ha'
        · rfl
        rcases List.mem_cons.1 ((hmem b).2 List.mem_cons_self) with rfl | hb'
        · rfl
        exact anti _ _ (ha b hb') (hb a ha')
      have hfirst := h (key a)
      rw [List.filter_cons_of_pos (by simp), List.filter_cons_of_pos (by simp [hkey])] at hfirst
      obtain ⟨rfl, htail⟩ := List.cons.inj hfirst
      have hrest : ∀ x, l.filter (key · = x) = l'.filter (key · = x) := by
        intro x
        by_cases hx : key a = x
        · rw [← hx]
          exact htail
        · have := h x
          rwa [List.filter_cons_of_neg (by simp [hx]), List.filter_cons_of_neg (by simp [hx])] at this
      rw [ih htl htl' hrest fun c => by simpa using congrArg (c ∈ ·) (hrest (key c))]

variable [DecidableRel r]

theorem filter_key_insertionSort (refl : ∀ x, r x x) (l : List α) (x : κ) :
    (l.insertionSort fun a b => r (key a) (key b)).filter (key · = x) = l.filter (key · = x) := by
  have hsorted : (l.filter (key · = x)).Pairwise fun a b => r (key a) (key b) := by
    refine List.pairwise_iff_forall_sublist.2 fun {a b} hab => ?_
    have ha := hab.subset List.mem_cons_self
    have hb := hab.subset (List.mem_cons_of_mem _ List.mem_cons_self)
    rw [of_decide_eq_true (List.mem_filter.1 ha).2, of_decide_eq_true (List.mem_filter.1 hb).2]
    exact refl x
  have hsub := (List.sublist_insertionSort hsorted List.filter_sublist).filter (key · = x)
  rw [List.filter_filter] at hsub
  simp only [Bool.and_self] at hsub
  exact (hsub.eq_of_length ((List.perm_insertionSort _ l).filter _).length_eq.symm).symm

theorem insertionSort_eq_iff (refl : ∀ x, r x x) (anti : ∀ x y, r x y → r y x → x = y) [Std.Total r] [IsTrans κ r]
    {l l' : List α} : (l.insertionSort fun a b => r (key a) (key b)) = (l'.insertionSort fun a b => r (key a) (key b)) ↔
      ∀ x, l.filter (key · = x) = l'.filter (key · = x) := by
  have : Std.Total fun a b : α => r (key a) (key b) := ⟨fun a b => total_of r _ _⟩
  have : IsTrans α fun a b => r (key a) (key b) := ⟨fun a b c => trans_of r⟩
  constructor
  · intro h x
    rw [← filter_key_insertionSort refl l x, h, filter_key_insertionSort refl l' x]
  · intro h
    refine eq_of_filter_key anti (List.pairwise_insertionSort _ l) (List.pairwise_insertionSort _ l') fun x => ?_
    rw [filter_key_insertionSort refl, filter_key_insertionSort refl]
    exact h x

end Stable
