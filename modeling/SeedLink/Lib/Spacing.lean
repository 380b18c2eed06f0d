import SeedLink.Lib.Words

/-!
# Text laid out with white space

`Spaced words s`: the text `s` is the words one after another, with white space around and between them. It is
said of the text alone, by no function that reads one; splitting the text gives the words back
(`Spaced.splitWords`), and stripping it leaves it spaced. The lines of a text are parted by any of the three
line ends.
-/

namespace Text

variable {s t lead w rest : Text} {words : List Text} {c : Char}

/-- A text of white space only. -/
def Blank (s : Text) : Prop := ∀ c ∈ s, isSpace c = true

instance (s : Text) : Decidable (Blank s) := List.decidableBAll _ s

theorem blank_nil : Blank [] := fun _ hc => absurd hc List.not_mem_nil

theorem Blank.notMem (h : Blank s) (hc : isSpace c = false) : c ∉ s := fun hmem => by
  simp [h c hmem] at hc

/-! ### Stripping -/

theorem lstrip_blank_append (h : Blank lead) (s : Text) : lstrip (lead ++ s) = lstrip s :=
  List.dropWhile_append_of_pos h

theorem Blank.lstrip (h : Blank s) : lstrip s = [] := List.dropWhile_eq_nil_iff.2 h

theorem lstrip_eq_self (h : ∀ c ∈ s.head?, isSpace c = false) : lstrip s = s := by
  cases s with
  | nil => rfl
  | cons c s => exact List.dropWhile_cons_of_neg (by simp [h c rfl])

theorem lstrip_word_append (h : Word w) (s : Text) : lstrip (w ++ s) = w ++ s := by
  refine lstrip_eq_self fun c hc => ?_
  rw [List.head?_append_of_ne_nil _ h.ne_nil] at hc
  exact h.noSpace c (List.mem_of_mem_head? hc)

theorem Blank.rstrip (h : Blank s) : rstrip s = [] := by
  rw [Text.rstrip, List.dropWhile_eq_nil_iff.2 fun c hc => h c (List.mem_reverse.1 hc), List.reverse_nil]

/-- Nothing is stripped before the last character that is no white space. -/
theorem rstrip_append (h : ∀ c ∈ s.getLast?, isSpace c = false) (t : Text) : rstrip (s ++ t) = s ++ rstrip t := by
  have hs : s.reverse.dropWhile isSpace = s.reverse := lstrip_eq_self (by simpa using h)
  rw [rstrip, List.reverse_append, List.dropWhile_append, hs, rstrip]
  split
  · rename_i hnil
    rw [List.isEmpty_iff.1 hnil, List.reverse_reverse, List.reverse_nil, List.append_nil]
  · rw [List.reverse_append, List.reverse_reverse]

theorem rstrip_word_append (h : Word w) (lead s : Text) : rstrip (lead ++ (w ++ s)) = lead ++ (w ++ rstrip s) := by
  rw [← List.append_assoc, rstrip_append (fun c hc => ?_), List.append_assoc]
  rw [List.getLast?_append_of_ne_nil _ h.ne_nil] at hc
  exact h.noSpace c (List.mem_of_getLast? hc)

theorem rstrip_prefix (s : Text) : rstrip s <+: s := by
  have := List.dropWhile_suffix (l := s.reverse) isSpace
  exact List.reverse_suffix.1 (by simpa [rstrip] using this)

/-- What is left begins as the text did. -/
theorem mem_head?_rstrip (h : c ∈ (rstrip s).head?) : c ∈ s.head? := by
  obtain ⟨t, ht⟩ := rstrip_prefix s
  rw [← ht, List.head?_append, Option.mem_def.1 h]
  rfl

theorem Blank.strip (h : Blank s) : strip s = [] := by
  rw [Text.strip, h.lstrip]
  rfl

/-- White space around a word. -/
theorem strip_word (hlead : Blank lead) (h : Word w) (ht : Blank t) : strip (lead ++ (w ++ t)) = w := by
  have hr := rstrip_word_append h [] t
  rw [List.nil_append, List.nil_append, ht.rstrip, List.append_nil] at hr
  rw [strip, lstrip_blank_append hlead, lstrip_word_append h, hr]

/-! ### Words in white space -/

/-- A word before white space or the end. -/
theorem Word.takeWhile_append (h : Word w) (ht : ∀ c ∈ t.head?, isSpace c = true) :
    (w ++ t).takeWhile (!isSpace ·) = w ∧ (w ++ t).dropWhile (!isSpace ·) = t := by
  have hw : ∀ c ∈ w, (!isSpace c) = true := fun c hc => by simp [h.noSpace c hc]
  rw [List.takeWhile_append_of_pos hw, List.dropWhile_append_of_pos hw]
  cases t with
  | nil => simp
  | cons c t => simp [ht c rfl]

/-- The words one after another, white space around and between them. -/
inductive Spaced : List Text → Text → Prop
  | nil {s : Text} (h : Blank s) : Spaced [] s
  | cons {lead w rest : Text} {words : List Text} (hlead : Blank lead) (hw : Word w) (hrest : Spaced words rest)
      (hhead : ∀ c ∈ rest.head?, isSpace c = true) : Spaced (w :: words) (lead ++ (w ++ rest))

theorem splitWords_space_cons (hc : isSpace c = true) (s : Text) : splitWords (c :: s) = splitWords s := by
  have hnil : splitWords [] = [] := by simp [splitWords, List.splitOnP_nil]
  simpa [hnil] using splitWords_append_space hc [] s

theorem splitWords_blank_append : ∀ {lead : Text}, Blank lead → ∀ s, splitWords (lead ++ s) = splitWords s
  | [], _, _ => rfl
  | c :: lead, h, s => by
    rw [List.cons_append, splitWords_space_cons (h c List.mem_cons_self)]
    exact splitWords_blank_append (fun d hd => h d (List.mem_cons_of_mem _ hd)) s

namespace Spaced

/-- Each character is white space or one of a word. -/
theorem mem (h : Spaced words s) (hc : c ∈ s) : isSpace c = true ∨ ∃ w ∈ words, c ∈ w := by
  induction h with
  | nil hblank => exact .inl (hblank c hc)
  | @cons lead w rest words hlead hw hrest hhead ih =>
    rcases List.mem_append.1 hc with hc | hc
    · exact .inl (hlead c hc)
    rcases List.mem_append.1 hc with hc | hc
    · exact .inr ⟨w, List.mem_cons_self, hc⟩
    · exact (ih hc).imp_right fun ⟨v, hv, hcv⟩ => ⟨v, List.mem_cons_of_mem _ hv, hcv⟩

theorem notMem (h : Spaced words s) (hc : isSpace c = false) (hwords : ∀ w ∈ words, c ∉ w) : c ∉ s := by
  intro hmem
  rcases h.mem hmem with hspace | ⟨w, hw, hcw⟩
  · simp [hspace] at hc
  · exact hwords w hw hcw

/-- Splitting gives the words back. -/
theorem splitWords (h : Spaced words s) : splitWords s = words := by
  induction h with
  | nil hblank => simpa [Text.splitWords, List.splitOnP_nil] using splitWords_blank_append hblank []
  | @cons lead w rest words hlead hw hrest hhead ih =>
    rw [splitWords_blank_append hlead]
    cases rest with
    | nil =>
      have hwords : words = [] := by simpa [Text.splitWords, List.splitOnP_nil] using ih.symm
      rw [List.append_nil, hw.splitWords, hwords]
    | cons c rest =>
      have hc : isSpace c = true := hhead c rfl
      rw [splitWords_append_space hc, hw.splitWords, ← splitWords_space_cons hc rest, ih, List.singleton_append]

theorem lstrip (h : Spaced words s) : Spaced words (lstrip s) := by
  cases h with
  | nil hblank => exact .nil (hblank.lstrip.symm ▸ blank_nil)
  | @cons lead w rest words hlead hw hrest hhead =>
    rw [lstrip_blank_append hlead, lstrip_word_append hw]
    exact .cons blank_nil hw hrest hhead

theorem rstrip (h : Spaced words s) : Spaced words (rstrip s) := by
  induction h with
  | nil hblank => exact .nil (hblank.rstrip.symm ▸ blank_nil)
  | @cons lead w rest words hlead hw hrest hhead ih =>
    rw [rstrip_word_append hw]
    exact .cons hlead hw ih fun c hc => hhead c (mem_head?_rstrip hc)

theorem lstrip_eq_nil (h : Spaced words s) : Text.lstrip s = [] ↔ words = [] := by
  cases h with
  | nil hblank => exact iff_of_true hblank.lstrip rfl
  | @cons lead w rest words hlead hw hrest hhead =>
    rw [lstrip_blank_append hlead, lstrip_word_append hw]
    exact iff_of_false (by simp [hw.ne_nil]) (by simp)

theorem space_cons (h : Spaced words s) (hc : isSpace c = true) : Spaced words (c :: s) := by
  have hcons : ∀ {s : Text}, Blank s → Blank (c :: s) := fun hs d hd => (List.mem_cons.1 hd).elim (· ▸ hc) (hs d)
  cases h with
  | nil hblank => exact .nil (hcons hblank)
  | cons hlead hw hrest hhead => exact .cons (hcons hlead) hw hrest hhead

/-- The first word is split off, and what is left holds the others. -/
theorem splitWord1 (h : Spaced (w :: words) s) :
    ∃ rest, Spaced words rest ∧ splitWord1 (strip s) = w :: if words = [] then [] else [rest] := by
  cases h with
  | @cons lead w rest words hlead hw hrest hhead =>
    have hstrip : strip (lead ++ (w ++ rest)) = w ++ Text.rstrip rest := by
      rw [strip, lstrip_blank_append hlead, lstrip_word_append hw]
      exact rstrip_word_append hw [] rest
    obtain ⟨htake, hdrop⟩ := hw.takeWhile_append fun c hc => hhead c (mem_head?_rstrip hc)
    refine ⟨Text.lstrip (Text.rstrip rest), hrest.rstrip.lstrip, ?_⟩
    have hnil := hrest.rstrip.lstrip_eq_nil
    rw [hstrip, Text.splitWord1, lstrip_word_append hw]
    split
    · rename_i h
      exact absurd (List.append_eq_nil_iff.1 h).1 hw.ne_nil
    · rename_i h
      rw [← h, htake, hdrop]
      simp only [List.isEmpty_iff, hnil]

end Spaced

/-- Words joined by blanks. -/
theorem spaced_intercalate : ∀ {words : List Text}, (∀ w ∈ words, Word w) → Spaced words (List.intercalate [' '] words)
  | [], _ => .nil blank_nil
  | [w], h => by
    have hw := Spaced.cons blank_nil (h w List.mem_cons_self) (.nil blank_nil) nofun
    simpa [List.intercalate] using hw
  | w :: v :: words, h => by
    have hrest := spaced_intercalate fun u hu => h u (List.mem_cons_of_mem w hu)
    have hhead : ∀ c ∈ (' ' :: List.intercalate [' '] (v :: words)).head?, isSpace c = true := by
      rintro c ⟨⟩
      decide
    have hw := Spaced.cons blank_nil (h w List.mem_cons_self) (hrest.space_cons (by decide)) hhead
    rw [List.intercalate_cons_cons, List.append_assoc]
    exact hw

theorem splitWords_intercalate (h : ∀ w ∈ words, Word w) : Text.splitWords (List.intercalate [' '] words) = words :=
  (spaced_intercalate h).splitWords

theorem strip_intercalate (h : ∀ w ∈ words, Word w) :
    strip (List.intercalate [' '] words) = List.intercalate [' '] words := by
  have hends : ∀ words : List Text, (∀ w ∈ words, Word w) →
      (∀ c ∈ (List.intercalate [' '] words).head?, isSpace c = false) ∧
        ∀ c ∈ (List.intercalate [' '] words).getLast?, isSpace c = false := by
    intro words h
    induction words with
    | nil => simp [List.intercalate]
    | cons w words ih =>
      have hw := h w List.mem_cons_self
      have hrest := ih fun v hv => h v (List.mem_cons_of_mem _ hv)
      cases words with
      | nil =>
        simp only [List.intercalate, List.intersperse, List.flatten_cons, List.flatten_nil, List.append_nil]
        exact ⟨fun c hc => hw.noSpace c (List.mem_of_mem_head? hc),
          fun c hc => hw.noSpace c (List.mem_of_getLast? hc)⟩
      | cons v words =>
        have hv : List.intercalate [' '] (v :: words) ≠ [] := by
          intro hnil
          have := splitWords_intercalate fun u hu => h u (List.mem_cons_of_mem w hu)
          rw [hnil] at this
          simp [splitWords, List.splitOnP_nil] at this
        rw [List.intercalate_cons_cons, List.append_assoc]
        refine ⟨fun c hc => ?_, fun c hc => ?_⟩
        · rw [List.head?_append_of_ne_nil _ hw.ne_nil] at hc
          exact hw.noSpace c (List.mem_of_mem_head? hc)
        · rw [List.getLast?_append_of_ne_nil _ (by simp), List.getLast?_append_of_ne_nil _ hv] at hc
          exact hrest.2 c hc
  exact strip_eq_self (hends words h).1 (hends words h).2

/-! ### Lines -/

/-- What may end a line. -/
def lineEnds : List Text := [['\n'], ['\r', '\n'], ['\r']]

theorem universalNewlines_oneLine_append (h : OneLine s) (t : Text) :
    universalNewlines (s ++ t) = s ++ universalNewlines t := by
  induction s with
  | nil => rfl
  | cons c s ih =>
    rw [List.cons_append, universalNewlines_cons (h.ne_return List.mem_cons_self),
      ih fun d hd => h d (List.mem_cons_of_mem _ hd), List.cons_append]

/-- Each line end is one line feed; a carriage return must have no line feed behind it. -/
theorem universalNewlines_lineEnd {eol : Text} (heol : eol ∈ lineEnds)
    (ht : eol = ['\r'] → ∀ c ∈ t.head?, c ≠ '\n') : universalNewlines (eol ++ t) = '\n' :: universalNewlines t := by
  simp only [lineEnds, List.mem_cons, List.not_mem_nil, or_false] at heol
  rcases heol with rfl | rfl | rfl
  · exact universalNewlines_cons (by decide) t
  · rfl
  · cases t with
    | nil => rfl
    | cons c t => exact universalNewlines_return (ht rfl c rfl) t

theorem universalNewlines_intercalate {eol : Text} (heol : eol ∈ lineEnds) :
    ∀ {lines : List Text}, (∀ line ∈ lines, OneLine line) →
      universalNewlines (List.intercalate eol lines) = List.intercalate ['\n'] lines
  | [], _ => rfl
  | [line], h => by
    have hline := h line List.mem_cons_self
    simpa [List.intercalate, universalNewlines] using universalNewlines_oneLine_append hline []
  | line :: next :: lines, h => by
    have ih := universalNewlines_intercalate heol fun l hl => h l (List.mem_cons_of_mem line hl)
    have hhead : eol = ['\r'] → ∀ c ∈ (List.intercalate eol (next :: lines)).head?, c ≠ '\n' := by
      rintro rfl c hc
      rcases mem_of_mem_intercalate (List.mem_of_mem_head? hc) with hc | ⟨l, hl, hc⟩
      · rw [List.mem_singleton.1 hc]
        decide
      · exact (h l (List.mem_cons_of_mem line hl)).ne_newline hc
    rw [List.intercalate_cons_cons, List.intercalate_cons_cons, List.append_assoc, List.append_assoc,
      universalNewlines_oneLine_append (h line List.mem_cons_self), universalNewlines_lineEnd heol hhead, ih]
    rfl

/-! ### Joined parts -/

/-- Joining parts and splitting the text again makes no difference to a reader that skips empty parts. -/
theorem filterMap_splitOn_intercalate {α : Type} {f : Text → Option α} {sep : Char} (hnil : f [] = none)
    {parts : List Text} (h : ∀ p ∈ parts, sep ∉ p) :
    ((List.intercalate [sep] parts).splitOn sep).filterMap f = parts.filterMap f := by
  by_cases hparts : parts = []
  · have hsplit : ([] : Text).splitOn sep = [[]] := by simp [List.splitOn_eq_splitOnP, List.splitOnP_nil]
    subst hparts
    simp [List.intercalate, hsplit, hnil]
  · rw [List.splitOn_intercalate sep h hparts]

end Text
