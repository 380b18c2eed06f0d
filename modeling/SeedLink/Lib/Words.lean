import SeedLink.Lib.OneLine
import SeedLink.Lib.Unicode
import Mathlib.Data.List.AList

/-!
# Words, lines and decimal integers read back

Text splits at its white space and at its line feeds (`splitWords_append_space`, `splitOn_append_newline`), and
an integer is the one its numeral is read as. In text mode a file is read with all its line ends turned into line
feeds (`universalNewlines`).
-/

namespace Text

/-! ### Words -/

/-- A non-empty text without white space. -/
structure Word (s : Text) : Prop where
  ne_nil : s ≠ []
  noSpace : ∀ c ∈ s, isSpace c = false

instance (s : Text) : Decidable (Word s) :=
  decidable_of_iff (s ≠ [] ∧ (s.all fun c => !isSpace c) = true)
    ⟨fun h => ⟨h.1, by simpa using h.2⟩, fun h => ⟨h.ne_nil, by simpa using h.noSpace⟩⟩

variable {s t : Text} {words : List Text} {c : Char}

theorem splitWords_append_space (hc : isSpace c = true) (s t : Text) :
    splitWords (s ++ c :: t) = splitWords s ++ splitWords t := by
  rw [splitWords, List.splitOnP_append_cons s t hc, List.filter_append]
  rfl

theorem Word.splitWords (h : Word s) : splitWords s = [s] := by
  rw [Text.splitWords, List.splitOnP_eq_singleton h.noSpace]
  simp [h.ne_nil]

/-- Nothing is stripped from a text whose ends are no white space. -/
theorem strip_eq_self (hhead : ∀ c ∈ s.head?, isSpace c = false) (hlast : ∀ c ∈ s.getLast?, isSpace c = false) :
    strip s = s := by
  have hdrop : ∀ l : Text, (∀ c ∈ l.head?, isSpace c = false) → l.dropWhile isSpace = l := by
    intro l hl
    cases l with
    | nil => rfl
    | cons c l => exact List.dropWhile_cons_of_neg (by simp [hl c rfl])
  rw [strip, lstrip, hdrop s hhead, rstrip, hdrop s.reverse (by simpa using hlast), List.reverse_reverse]

theorem strip_of_noSpace (h : ∀ c ∈ s, isSpace c = false) : strip s = s :=
  strip_eq_self (fun c hc => h c (List.mem_of_mem_head? hc)) fun c hc => h c (List.mem_of_getLast? hc)

theorem Word.strip (h : Word s) : strip s = s := strip_of_noSpace h.noSpace

theorem Word.stripInt (h : Word s) : stripInt s = s := by
  have hdrop : ∀ l : Text, (∀ c ∈ l, isSpace c = false) → l.dropWhile isIntSpace = l := by
    intro l hl
    cases l with
    | nil => rfl
    | cons c l => exact List.dropWhile_cons_of_neg (by simp [isIntSpace, hl c List.mem_cons_self])
  rw [Text.stripInt, hdrop s h.noSpace, hdrop _ fun c hc => h.noSpace c (List.mem_reverse.1 hc), List.reverse_reverse]

theorem noSpace_intercalate {sep : Text} (hsep : ∀ c ∈ sep, isSpace c = false)
    (h : ∀ w ∈ words, ∀ c ∈ w, isSpace c = false) : ∀ c ∈ List.intercalate sep words, isSpace c = false := by
  intro c hc
  rcases mem_of_mem_intercalate hc with hc | ⟨w, hw, hc⟩
  · exact hsep c hc
  · exact h w hw c hc

theorem word_of_mem_splitWords {w : Text} (h : w ∈ splitWords s) : Word w := by
  obtain ⟨hpart, hne⟩ := List.mem_filter.1 h
  exact ⟨by simpa using hne, fun c hc => (mem_of_mem_splitOnP hpart hc).2⟩

/-- The first word begins with the first character that is no white space. -/
theorem head?_splitWords {w : Text} (h : splitWords (strip s) = w :: words) : w.head? = (strip s).head? := by
  have hstrip : strip s <+: lstrip s := by
    have := List.dropWhile_suffix (l := (lstrip s).reverse) isSpace
    rw [strip, rstrip]
    exact List.reverse_suffix.1 (by simpa using this)
  cases hs : strip s with
  | nil =>
    rw [hs] at h
    simp [splitWords, List.splitOnP_nil] at h
  | cons c t =>
    have hc : isSpace c = false := by
      obtain ⟨u, hu⟩ := hs ▸ hstrip
      have := List.head?_dropWhile_not isSpace s
      rw [← lstrip, ← hu, List.cons_append, List.head?_cons] at this
      simpa using this
    rw [hs, splitWords, List.splitOnP_cons_eq_if_modifyHead, if_neg (by simp [hc])] at h
    cases hsplit : t.splitOnP isSpace with
    | nil => exact absurd hsplit (List.splitOnP_ne_nil isSpace t)
    | cons first rest =>
      rw [hsplit] at h
      simp only [List.modifyHead_cons, List.isEmpty_cons, Bool.not_false, List.filter_cons_of_pos, List.cons.injEq] at h
      rw [← h.1]
      rfl

/-! ### Lines -/

theorem splitOn_append_newline (s t : Text) :
    (s ++ '\n' :: t).splitOn '\n' = s.splitOn '\n' ++ t.splitOn '\n' := by
  simp only [List.splitOn_eq_splitOnP]
  exact List.splitOnP_append_cons s t (by decide)

theorem splitOn_of_noNewline (h : ∀ c ∈ s, c ≠ '\n') : s.splitOn '\n' = [s] := by
  rw [List.splitOn_eq_splitOnP]
  exact List.splitOnP_eq_singleton fun c hc => by simpa using h c hc

/-- Carriage returns, alone or before a line feed, are line ends. -/
def universalNewlines : Text → Text
  | [] => []
  | '\r' :: '\n' :: rest => '\n' :: universalNewlines rest
  | '\r' :: rest => '\n' :: universalNewlines rest
  | c :: rest => c :: universalNewlines rest

theorem universalNewlines_cons (hc : c ≠ '\r') (s : Text) :
    universalNewlines (c :: s) = c :: universalNewlines s := by
  rw [universalNewlines]
  · exact fun _ h _ => hc h
  · exact fun h => hc h

theorem universalNewlines_return (hc : c ≠ '\n') (s : Text) :
    universalNewlines ('\r' :: c :: s) = '\n' :: universalNewlines (c :: s) := by
  rw [universalNewlines]
  rintro rest h
  cases h
  exact hc rfl

theorem universalNewlines_append (s t : Text) :
    universalNewlines (s ++ '\n' :: t) = universalNewlines (s ++ ['\n']) ++ universalNewlines t := by
  induction s using universalNewlines.induct with
  | case1 => simp [universalNewlines]
  | case2 rest ih => simpa [universalNewlines] using ih
  | case3 rest hne ih =>
    rcases rest with _ | ⟨c, rest⟩
    · simp [universalNewlines]
    · have hc : c ≠ '\n' := fun h => hne rest (by rw [h])
      simpa [universalNewlines_return hc] using ih
  | case4 c rest _ hne ih =>
    have hc : c ≠ '\r' := fun h => hne h
    simpa [universalNewlines_cons hc] using ih

/-- A line feed at the end stays there. -/
theorem exists_universalNewlines (s : Text) : ∃ s', universalNewlines (s ++ ['\n']) = s' ++ ['\n'] := by
  induction s using universalNewlines.induct with
  | case1 => exact ⟨[], rfl⟩
  | case2 rest ih =>
    obtain ⟨s', ih⟩ := ih
    exact ⟨'\n' :: s', by simp [universalNewlines, ih]⟩
  | case3 rest hne ih =>
    rcases rest with _ | ⟨c, rest⟩
    · exact ⟨[], rfl⟩
    · have hc : c ≠ '\n' := fun h => hne rest (by rw [h])
      obtain ⟨s', ih⟩ := ih
      refine ⟨'\n' :: s', ?_⟩
      rw [List.cons_append, List.cons_append, universalNewlines_return hc, ← List.cons_append, ih, List.cons_append]
  | case4 c rest _ hne ih =>
    have hc : c ≠ '\r' := fun h => hne h
    obtain ⟨s', ih⟩ := ih
    exact ⟨c :: s', by rw [List.cons_append, universalNewlines_cons hc, ih, List.cons_append]⟩

theorem universalNewlines_of_noReturn (h : ∀ c ∈ s, c ≠ '\r') : universalNewlines s = s := by
  induction s with
  | nil => rfl
  | cons c s ih =>
    rw [universalNewlines_cons (h c List.mem_cons_self), ih fun d hd => h d (List.mem_cons_of_mem _ hd)]

/-! ### Integers -/

section integers
variable [Unicode]

omit [Unicode] in
theorem word_numeral (n : Nat) : Word (numeral 10 n) := ⟨numeral_ne_nil n, noSpace_numeral⟩

omit [Unicode] in
theorem word_intNumeral (n : Int) : Word (intNumeral 10 n) := by
  rcases n with n | n
  · exact word_numeral n
  · refine ⟨by simp [intNumeral], fun c hc => ?_⟩
    rcases List.mem_cons.1 hc with rfl | hc
    · decide
    · exact (word_numeral (n + 1)).noSpace c hc

theorem digit?_digitChar {d : Nat} (h : d < 10) : Unicode.digit? (digitChar d) = some d := by
  have hascii : ∀ d < 10, (digitChar d).toNat < 128 ∧ (digitChar d).isDigit = true ∧
      (digitChar d).toNat - 48 = d := by decide
  obtain ⟨hlt, hisDigit, hval⟩ := hascii d h
  rw [Unicode.digit?_ascii _ hlt, if_pos hisDigit, hval]

theorem decimalDigits_map (digits : List Nat) : ∀ (value count : Nat), (∀ d ∈ digits, d < 10) → digits ≠ [] →
    ∀ underscore, decimalDigits value count underscore (digits.map digitChar) =
      some (digits.foldl (fun value d => value * 10 + d) value, count + digits.length) := by
  have hunderscore : ∀ d < 10, digitChar d ≠ '_' := by decide
  induction digits with
  | nil => exact fun _ _ _ h => absurd rfl h
  | cons d digits ih =>
    intro value count hlt _ underscore
    have hd := hlt d List.mem_cons_self
    rw [List.map_cons, decimalDigits, if_neg (hunderscore d hd), digit?_digitChar hd]
    simp only
    rcases digits with _ | ⟨d', digits⟩
    · simp [decimalDigits]
    · rw [ih (value * 10 + d) (count + 1) (fun e he => hlt e (List.mem_cons_of_mem _ he)) (by simp) false]
      simp only [List.foldl_cons, List.length_cons, Option.some.injEq, Prod.mk.injEq, true_and]
      omega

theorem decimalDigits_numeral (n : Nat) :
    decimalDigits 0 0 true (numeral 10 n) = some (n, (numeral 10 n).length) := by
  unfold numeral
  split
  · rename_i h
    rw [h]
    exact decimalDigits_map [0] 0 0 (by simp) (by simp) true
  · rename_i h
    have hne : (Nat.digits 10 n).reverse ≠ [] := by simpa [Nat.digits_eq_nil_iff_eq_zero] using h
    have hlt : ∀ d ∈ (Nat.digits 10 n).reverse, d < 10 := fun d hd =>
      Nat.digits_lt_base (by decide) (List.mem_reverse.1 hd)
    rw [decimalDigits_map _ 0 0 hlt hne true, List.length_map, List.foldl_reverse, Nat.zero_add]
    have hval : (Nat.digits 10 n).foldr (fun d value => value * 10 + d) 0 = n := by
      conv_rhs => rw [← Nat.ofDigits_digits 10 n, Nat.ofDigits_eq_foldr]
      congr 1
      funext d value
      simp only [Nat.cast_id]
      omega
    rw [hval]

/-- A numeral without a sign. -/
theorem intBase10_digits {value count : Nat} (h : stripInt s = s) (hsign : ∀ rest, s ≠ '-' :: rest ∧ s ≠ '+' :: rest)
    (hd : decimalDigits 0 0 true s = some (value, count)) (hcount : count ≤ maxStrDigits) :
    intBase10 s = some (value : Int) := by
  unfold intBase10
  rw [h]
  split
  rename_i negative s' hsplit
  split at hsplit
  · exact absurd rfl (hsign _).1
  · exact absurd rfl (hsign _).2
  · cases hsplit
    simp [hd, hcount]

/-- What `str` prints `int` reads. -/
theorem intBase10_of_strInt {n : Int} (h : strInt n = some s) : intBase10 s = some n := by
  unfold strInt at h
  split at h
  · rename_i hlen
    obtain rfl := Option.some.inj h
    have hword := word_intNumeral n
    rcases n with n | n
    · refine intBase10_digits hword.stripInt (fun rest => ?_) (decimalDigits_numeral n) hlen
      have hchars : ∀ c ∈ numeral 10 n, c ≠ '-' ∧ c ≠ '+' := by
        intro c hc
        obtain ⟨d, hd, rfl⟩ := exists_digit_of_mem_numeral (by decide) hc
        have hdigit : ∀ d < 10, digitChar d ≠ '-' ∧ digitChar d ≠ '+' := by decide
        exact hdigit d hd
      refine ⟨fun hs => ?_, fun hs => ?_⟩
      · have hs : numeral 10 n = '-' :: rest := hs
        exact (hchars '-' (hs ▸ List.mem_cons_self)).1 rfl
      · have hs : numeral 10 n = '+' :: rest := hs
        exact (hchars '+' (hs ▸ List.mem_cons_self)).2 rfl
    · have hlen' : (numeral 10 (n + 1)).length ≤ maxStrDigits := hlen
      rw [intBase10, hword.stripInt]
      simp only [intNumeral, decimalDigits_numeral, hlen', if_true]
      rfl
  · cases h

theorem intBase10_numeral {n : Nat} (h : (numeral 10 n).length ≤ maxStrDigits) :
    intBase10 (numeral 10 n) = some (n : Int) :=
  intBase10_of_strInt (n := n) (if_pos h)

omit [Unicode] in
/-- A numeral at the end is not stripped. -/
theorem strip_append_numeral (hhead : ∀ c ∈ s.head?, isSpace c = false) (hne : s ≠ []) (n : Nat) :
    strip (s ++ numeral 10 n) = s ++ numeral 10 n := by
  have hnum := word_numeral n
  refine strip_eq_self (fun c hc => ?_) fun c hc => ?_
  · rw [List.head?_append_of_ne_nil _ hne] at hc
    exact hhead c hc
  · rw [List.getLast?_append_of_ne_nil _ hnum.ne_nil] at hc
    exact hnum.noSpace c (List.mem_of_getLast? hc)

end integers

end Text
