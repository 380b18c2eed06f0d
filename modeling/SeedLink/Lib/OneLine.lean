import SeedLink.Lib.Text

/-!
# Text without line breaks

`OneLine s`: no character of `s` is a line feed or a carriage return. Cutting text up keeps this, and
so does splitting at white space whatever the text; numerals have it.
-/

namespace Text

def OneLine (s : Text) : Prop := ∀ c ∈ s, c.toNat ≠ 10 ∧ c.toNat ≠ 13

instance (s : Text) : Decidable (OneLine s) := List.decidableBAll _ s

variable {s t sep : Text} {c : Char}

@[simp] theorem oneLine_nil : OneLine [] := by simp [OneLine]

@[simp] theorem oneLine_cons : OneLine (c :: s) ↔ (c.toNat ≠ 10 ∧ c.toNat ≠ 13) ∧ OneLine s := by
  simp [OneLine]

@[simp] theorem oneLine_append : OneLine (s ++ t) ↔ OneLine s ∧ OneLine t := by
  simp only [OneLine, List.forall_mem_append]

theorem OneLine.subset (h : OneLine s) (hsub : t ⊆ s) : OneLine t := fun c hc => h c (hsub hc)

theorem OneLine.ne_newline (h : OneLine s) (hc : c ∈ s) : c ≠ '\n' := by
  rintro rfl
  exact (h _ hc).1 rfl

theorem OneLine.ne_return (h : OneLine s) (hc : c ∈ s) : c ≠ '\r' := by
  rintro rfl
  exact (h _ hc).2 rfl

theorem OneLine.noReturn_newline (h : OneLine s) : ∀ c ∈ s ++ ['\n'], c ≠ '\r' := by
  intro c hc
  rcases List.mem_append.1 hc with hc | hc
  · exact h.ne_return hc
  · rw [List.mem_singleton.1 hc]
    decide

theorem oneLine_of_noSpace (h : ∀ c ∈ s, isSpace c = false) : OneLine s := by
  intro c hc
  have := h c hc
  constructor <;> intro hn <;> simp [isSpace, hn] at this

theorem oneLine_intercalate {parts : List Text} (hsep : OneLine sep) (h : ∀ p ∈ parts, OneLine p) :
    OneLine (List.intercalate sep parts) := by
  intro c hc
  rcases mem_of_mem_intercalate hc with hc | ⟨p, hp, hc⟩
  · exact hsep c hc
  · exact h p hp c hc

/-! ### Numerals -/

theorem noSpace_numeral {b n : Nat} : ∀ c ∈ numeral b n, isSpace c = false := by
  unfold numeral
  split
  · simp [isSpace]
  · intro c hc
    obtain ⟨d, -, rfl⟩ := List.mem_map.1 hc
    exact (digitChar_plain d).1

theorem oneLine_numeral {b n : Nat} : OneLine (numeral b n) := oneLine_of_noSpace noSpace_numeral

theorem oneLine_intNumeral {b : Nat} {n : Int} : OneLine (intNumeral b n) := by
  cases n with
  | ofNat n => exact oneLine_numeral
  | negSucc n => exact oneLine_cons.2 ⟨by decide, oneLine_numeral⟩

/-! ### Splitting -/

theorem mem_of_mem_splitOnP {p : Char → Bool} {part : Text} (h : part ∈ s.splitOnP p) (hc : c ∈ part) :
    c ∈ s ∧ p c = false := by
  induction s generalizing part with
  | nil =>
    rw [List.splitOnP_nil, List.mem_singleton] at h
    subst h
    cases hc
  | cons a s ih =>
    rw [List.splitOnP_cons_eq_if_modifyHead] at h
    by_cases ha : p a = true
    · rw [if_pos ha, List.mem_cons] at h
      rcases h with rfl | h
      · cases hc
      · exact ⟨List.mem_cons_of_mem _ (ih h hc).1, (ih h hc).2⟩
    · rw [if_neg ha] at h
      cases hs : s.splitOnP p with
      | nil => exact absurd hs (List.splitOnP_ne_nil p s)
      | cons first rest =>
        rw [hs, List.modifyHead_cons, List.mem_cons] at h
        have hmem : ∀ q ∈ first :: rest, c ∈ q → c ∈ a :: s ∧ p c = false := fun q hq hcq =>
          ⟨List.mem_cons_of_mem _ (ih (hs ▸ hq) hcq).1, (ih (hs ▸ hq) hcq).2⟩
        rcases h with rfl | h
        · rcases List.mem_cons.1 hc with rfl | hc
          · exact ⟨List.mem_cons_self, by simpa using ha⟩
          · exact hmem first List.mem_cons_self hc
        · exact hmem part (List.mem_cons_of_mem _ h) hc

theorem oneLine_of_mem_splitWords {word : Text} (h : word ∈ splitWords s) : OneLine word :=
  oneLine_of_noSpace fun _ hc => (mem_of_mem_splitOnP (List.mem_filter.1 h).1 hc).2

theorem OneLine.splitOn {sep : Char} {part : Text} (h : OneLine s) (hp : part ∈ s.splitOn sep) : OneLine part :=
  by
  rw [List.splitOn_eq_splitOnP] at hp
  exact h.subset fun _ hc => (mem_of_mem_splitOnP hp hc).1

/-- The first word has no white space. -/
theorem oneLine_of_splitWord1 {word : Text} {rest : List Text} (h : splitWord1 s = word :: rest) :
    OneLine word := by
  refine oneLine_of_noSpace fun c hc => ?_
  unfold splitWord1 at h
  split at h
  · cases h
  · cases h
    simpa using List.all_eq_true.1 List.all_takeWhile c hc

theorem OneLine.partition (h : OneLine s) (sep : Char) :
    OneLine (Text.partition sep s).1 ∧ OneLine (Text.partition sep s).2.2 := by
  unfold Text.partition
  split
  · exact ⟨h, oneLine_nil⟩
  · rename_i rest hdrop
    refine ⟨h.subset (List.takeWhile_subset _), h.subset fun c hc => ?_⟩
    exact List.dropWhile_subset _ (hdrop ▸ List.mem_cons_of_mem _ hc)

end Text
