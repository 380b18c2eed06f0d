import SeedLink.Info
import SeedLink.Instants
import SeedLink.Lib.Words

/-!
# Written times

`Stamp` is a time as it is written in ISO form: its fields, the separator before the time of day, the seconds
with their fraction where there are any, and the `Z`. A field below ten may be written with one digit. The
normalizer writes it with two wherever it finds seconds; without them it pads month and day only
(`normalizeTimestring_text`).
-/

namespace SeedLink

/-! ### Two digits or one -/

/-- A field in two digits, or in one where it is short and has one. -/
def timeField (short : Bool) (n : Nat) : Text := if short then Text.numeral 10 n else padded 2 n

section fields
variable {short : Bool} {n width : Nat} {rest : Text}

theorem padded_two (h : n < 100) : padded 2 n = [Text.digitChar (n / 10), Text.digitChar (n % 10)] := by
  have key : ∀ n < 100, padded 2 n = [Text.digitChar (n / 10), Text.digitChar (n % 10)] := by decide
  exact key n h

theorem timeField_cases (short : Bool) (h : n < 100) :
    timeField short n = padded 2 n ∨ (short = true ∧ n < 10 ∧ timeField short n = [Text.digitChar n]) := by
  have key : ∀ n < 100, Text.numeral 10 n = padded 2 n ∨ (n < 10 ∧ Text.numeral 10 n = [Text.digitChar n]) := by decide
  cases short with
  | false => exact .inl rfl
  | true => exact (key n h).imp id fun h => ⟨rfl, h⟩

theorem length_padded (hw : 0 < width) (h : n < 10 ^ width) : (padded width n).length = width := by
  have hlen := Text.length_numeral_le (b := 10) (by decide) hw h
  rw [padded, List.length_append, List.length_replicate]
  omega

theorem digit_of_mem_padded {c : Char} (h : c ∈ padded width n) : ∃ d < 10, c = Text.digitChar d := by
  rcases List.mem_append.1 h with h | h
  · exact ⟨0, by decide, List.eq_of_mem_replicate h⟩
  · exact Text.exists_digit_of_mem_numeral (by decide) h

theorem digit_of_mem_timeField {c : Char} (h : c ∈ timeField short n) : ∃ d < 10, c = Text.digitChar d := by
  cases short with
  | false => exact digit_of_mem_padded h
  | true => exact Text.exists_digit_of_mem_numeral (by decide) h

/-- One digit or two, told by the length. -/
theorem length_timeField (short : Bool) {n : Nat} (h : n < 100) :
    (timeField short n).length = if short = true ∧ n < 10 then 1 else 2 := by
  rcases timeField_cases short h with hf | ⟨hshort, hlt, hf⟩
  · by_cases hshort : short = true ∧ n < 10
    · have hone : ∀ n < 10, timeField true n ≠ padded 2 n := by decide
      rw [hshort.1] at hf
      exact absurd hf (hone n hshort.2)
    · rw [hf, padded_two h, if_neg hshort]
      rfl
  · rw [hf, if_pos ⟨hshort, hlt⟩]
    rfl

theorem timeField_ne_nil (short : Bool) (n : Nat) : timeField short n ≠ [] := by
  cases short with
  | false => exact List.append_ne_nil_of_right_ne_nil _ (Text.numeral_ne_nil n)
  | true => exact Text.numeral_ne_nil n

variable [Unicode]

theorem digits12_timeField (h : n < 100) (short : Bool) (hrest : ∀ c ∈ rest.head?, Unicode.digit? c = none) :
    digits12 (timeField short n ++ rest) = some (n, rest) := by
  rcases timeField_cases short h with hf | ⟨-, hlt, hf⟩
  · rw [hf, padded_two h]
    simp only [List.cons_append, List.nil_append, digits12,
      Text.digit?_digitChar (show n / 10 < 10 by omega), Text.digit?_digitChar (show n % 10 < 10 by omega)]
    congr 2
    omega
  · rw [hf]
    rcases rest with _ | ⟨c, rest⟩
    · simp only [List.cons_append, List.nil_append, digits12, Text.digit?_digitChar hlt]
    · simp only [List.cons_append, List.nil_append, digits12, Text.digit?_digitChar hlt, hrest c rfl]

theorem allDigits_padded (width n : Nat) : allDigits (padded width n) = true := by
  refine List.all_eq_true.2 fun c hc => ?_
  obtain ⟨d, hd, rfl⟩ := digit_of_mem_padded hc
  rw [Text.digit?_digitChar hd]
  rfl

end fields

/-! ### Stamps -/

/-- A time in ISO form, the digits of the fraction as they are written. -/
structure Stamp where
  year : Nat
  month : Nat
  day : Nat
  sep : Char := 'T'
  hour : Nat
  minute : Nat
  seconds : Option (Nat × Option Text)
  zulu : Bool

/-- Which fields are written with one digit if they have one. -/
structure Shortened where
  month : Bool := false
  day : Bool := false
  hour : Bool := false
  minute : Bool := false
  second : Bool := false

namespace Stamp

/-- A date of the calendar and a time of day. -/
structure Valid (st : Stamp) : Prop where
  year_pos : 1 ≤ st.year
  year_le : st.year ≤ DateTime.maxYear
  month_pos : 1 ≤ st.month
  month_le : st.month ≤ 12
  day_pos : 1 ≤ st.day
  day_le : st.day ≤ DateTime.daysInMonth st.year st.month
  sep_eq : st.sep = 'T' ∨ st.sep = ' '
  hour_le : st.hour ≤ 23
  minute_le : st.minute ≤ 59
  second_le : ∀ s ∈ st.seconds, s.1 ≤ 59
  fraction : ∀ s ∈ st.seconds, ∀ digits ∈ s.2, digits ≠ [] ∧ ∀ c ∈ digits, ∃ d < 10, c = Text.digitChar d

/-- `-MM-DD`. -/
def monthDay (short : Shortened) (st : Stamp) : Text :=
  '-' :: (timeField short.month st.month ++ '-' :: timeField short.day st.day)

/-- `hh:mm`. -/
def hourMinute (short : Shortened) (st : Stamp) : Text :=
  timeField short.hour st.hour ++ ':' :: timeField short.minute st.minute

/-- The fraction and the `Z`. -/
def ending (st : Stamp) : Text :=
  (match st.seconds with
  | some (_, some digits) => '.' :: digits
  | _ => []) ++ if st.zulu then ['Z'] else []

/-- `:ss`, the fraction and the `Z`. -/
def rest (short : Shortened) (st : Stamp) : Text :=
  match st.seconds with
  | none => st.ending
  | some (second, _) => ':' :: (timeField short.second second ++ st.ending)

def text (short : Shortened) (st : Stamp) : Text :=
  padded 4 st.year ++ (st.monthDay short ++ st.sep :: (st.hourMinute short ++ st.rest short))

/-! The characters of a stamp. -/

/-- A character that a stamp may have behind its separator. -/
def Plain (c : Char) : Prop := (∃ d < 10, c = Text.digitChar d) ∨ c ∈ ['-', ':', '.', 'Z']

section characters
variable {st : Stamp} {short : Shortened} {c : Char}

theorem Plain.noSpace (h : Plain c) : Text.isSpace c = false ∧ c ≠ ',' ∧ c ≠ '\n' := by
  have hdigit : ∀ d < 10, Text.isSpace (Text.digitChar d) = false ∧ Text.digitChar d ≠ ',' ∧ Text.digitChar d ≠ '\n' := by
    decide
  rcases h with ⟨d, hd, rfl⟩ | h
  · exact hdigit d hd
  · simp only [List.mem_cons, List.not_mem_nil, or_false] at h
    rcases h with rfl | rfl | rfl | rfl <;> decide

theorem Plain.timeField {short : Bool} {n : Nat} (h : c ∈ timeField short n) : Plain c := .inl (digit_of_mem_timeField h)

theorem Valid.plain_ending (h : st.Valid) (hc : c ∈ st.ending) : Plain c := by
  rcases List.mem_append.1 hc with hc | hc
  · cases hs : st.seconds with
    | none =>
      rw [hs] at hc
      cases hc
    | some s =>
      obtain ⟨second, _ | digits⟩ := s
      · rw [hs] at hc
        cases hc
      · rw [hs] at hc
        rcases List.mem_cons.1 hc with rfl | hc
        · exact .inr (by decide)
        · exact .inl ((h.fraction _ (by rw [hs]; rfl) digits rfl).2 c hc)
  · cases hz : st.zulu with
    | false =>
      rw [hz] at hc
      cases hc
    | true =>
      rw [hz] at hc
      rw [List.mem_singleton.1 hc]
      exact .inr (by decide)

theorem Valid.plain_rest (h : st.Valid) (hc : c ∈ st.rest short) : Plain c := by
  unfold rest at hc
  cases hs : st.seconds with
  | none =>
    rw [hs] at hc
    exact h.plain_ending hc
  | some s =>
    rw [hs] at hc
    rcases List.mem_cons.1 hc with rfl | hc
    · exact .inr (by decide)
    · exact (List.mem_append.1 hc).elim .timeField h.plain_ending

theorem plain_hourMinute (hc : c ∈ st.hourMinute short) : Plain c := by
  rcases List.mem_append.1 hc with hc | hc
  · exact .timeField hc
  · rcases List.mem_cons.1 hc with rfl | hc
    · exact .inr (by decide)
    · exact .timeField hc

theorem plain_monthDay (hc : c ∈ st.monthDay short) : Plain c := by
  rcases List.mem_cons.1 hc with rfl | hc
  · exact .inr (by decide)
  rcases List.mem_append.1 hc with hc | hc
  · exact .timeField hc
  · rcases List.mem_cons.1 hc with rfl | hc
    · exact .inr (by decide)
    · exact .timeField hc

theorem Valid.plain (h : st.Valid) (hc : c ∈ st.text short) : Plain c ∨ c = st.sep := by
  rcases List.mem_append.1 hc with hc | hc
  · exact .inl (.inl (digit_of_mem_padded hc))
  rcases List.mem_append.1 hc with hc | hc
  · exact .inl (plain_monthDay hc)
  rcases List.mem_cons.1 hc with rfl | hc
  · exact .inr rfl
  · exact .inl ((List.mem_append.1 hc).elim plain_hourMinute h.plain_rest)

theorem Valid.no_comma (h : st.Valid) : (st.text short).contains ',' = false := by
  rw [List.contains_eq_mem, decide_eq_false_iff_not]
  intro hc
  rcases h.plain hc with hc | hc
  · exact hc.noSpace.2.1 rfl
  · rcases h.sep_eq with hsep | hsep <;> rw [hsep] at hc <;> cases hc

/-- A stamp begins with a digit and ends in one or in `Z`. -/
theorem Valid.strip (h : st.Valid) : Text.strip (st.text short) = st.text short := by
  have hyear : padded 4 st.year ≠ [] := List.append_ne_nil_of_right_ne_nil _ (Text.numeral_ne_nil _)
  have hend : st.hourMinute short ++ st.rest short ≠ [] :=
    List.append_ne_nil_of_left_ne_nil (List.append_ne_nil_of_left_ne_nil (timeField_ne_nil _ _) _) _
  refine Text.strip_eq_self (fun c hc => ?_) fun c hc => ?_
  · rw [text, List.head?_append_of_ne_nil _ hyear] at hc
    exact (Plain.noSpace (.inl (digit_of_mem_padded (List.mem_of_mem_head? hc)))).1
  · rw [text, List.getLast?_append_of_ne_nil _ (by simp [monthDay]), List.getLast?_append_of_ne_nil _ (by simp),
      List.getLast?_cons_of_ne_nil hend] at hc
    exact ((List.mem_append.1 (List.mem_of_getLast? hc)).elim plain_hourMinute h.plain_rest).noSpace.1

end characters

/-! ### Padding -/

section padding
variable [Unicode] {st : Stamp} {short : Shortened} {year tail : Text} {month day hour minute second : Nat}

theorem digit?_mark {c : Char} (h : c ∈ ['-', ':', '.', 'Z', 'T', ' ']) : Unicode.digit? c = none := by
  have hascii : ['-', ':', '.', 'Z', 'T', ' '].all (fun c => decide (c.toNat < 128) && !c.isDigit) = true := by decide
  obtain ⟨hlt, hdigit⟩ : c.toNat < 128 ∧ c.isDigit = false := by simpa using List.all_eq_true.1 hascii c h
  rw [Unicode.digit?_ascii c hlt, hdigit]
  rfl

omit [Unicode] in
theorem restOfLine_eq_self (h : ∀ c ∈ tail, c ≠ '\n') : restOfLine tail = tail :=
  List.takeWhile_eq_self_iff.2 fun c hc => by simpa using h c hc

omit [Unicode] in
@[simp] theorem afterChar_self (c : Char) (s : Text) : afterChar c (c :: s) = some s := if_pos rfl

/-- A field up to a mark. -/
theorem digits12_mark {n : Nat} (hn : n < 100) {c : Char} (hc : c ∈ ['-', ':', '.', 'Z', 'T', ' ']) (a : Bool)
    (rest : Text) : digits12 (timeField a n ++ c :: rest) = some (n, c :: rest) :=
  digits12_timeField hn _ fun d hd => by
    obtain rfl : c = d := Option.some.inj hd
    exact digit?_mark hc

/-- The first substitution, on a date and what follows it on its line. -/
theorem padDate_eq (hlen : year.length = 4) (hyear : allDigits year = true) (hmonth : month < 100) (hday : day < 100)
    (a b : Bool) (hhead : ∀ c ∈ tail.head?, Unicode.digit? c = none) (htail : ∀ c ∈ tail, c ≠ '\n') :
    padDate (year ++ '-' :: (timeField a month ++ '-' :: (timeField b day ++ tail))) =
      some (year ++ '-' :: (padded 2 month ++ '-' :: (padded 2 day ++ tail))) := by
  have hm := digits12_mark hmonth (c := '-') (by decide) a (timeField b day ++ tail)
  have hd := digits12_timeField hday b hhead
  unfold padDate
  rw [List.take_left' hlen, List.drop_left' hlen]
  simp [guard, hlen, hyear, hm, hd, restOfLine_eq_self htail]

/-- The date and its separator, as the second substitution wants them. -/
theorem padTime_date (hlen : year.length = 4) (hyear : allDigits year = true) (hmonth : month < 100) (hday : day < 100)
    {sep : Char} (hsep : sep = 'T' ∨ sep = ' ') (rest : Text) :
    padTime (year ++ '-' :: (padded 2 month ++ '-' :: (padded 2 day ++ sep :: rest))) = do
      let (hour, r) ← digits12 rest
      let r ← afterChar ':' r
      let (minute, r) ← digits12 r
      let r ← afterChar ':' r
      let (second, r) ← digits12 r
      return year ++ '-' :: (padded 2 month ++ '-' :: (padded 2 day ++ [sep])) ++ padded 2 hour ++
        ':' :: padded 2 minute ++ ':' :: padded 2 second ++ restOfLine r := by
  obtain ⟨y₁, y₂, y₃, y₄, rfl⟩ : ∃ y₁ y₂ y₃ y₄, year = [y₁, y₂, y₃, y₄] := by
    rcases year with _ | ⟨y₁, _ | ⟨y₂, _ | ⟨y₃, _ | ⟨y₄, _ | ⟨y₅, year⟩⟩⟩⟩⟩ <;> simp at hlen
    exact ⟨y₁, y₂, y₃, y₄, rfl⟩
  have hm := allDigits_padded 2 month
  have hd := allDigits_padded 2 day
  rw [padded_two hmonth] at hm ⊢
  rw [padded_two hday] at hd ⊢
  unfold padTime
  simp [guard, hyear, hm, hd, hsep]

/-- The second substitution finds seconds. -/
theorem padTime_seconds (hlen : year.length = 4) (hyear : allDigits year = true) (hmonth : month < 100)
    (hday : day < 100) {sep : Char} (hsep : sep = 'T' ∨ sep = ' ') (hhour : hour < 100) (hminute : minute < 100)
    (hsecond : second < 100) (a b c : Bool) (hhead : ∀ c ∈ tail.head?, Unicode.digit? c = none)
    (htail : ∀ c ∈ tail, c ≠ '\n') :
    padTime (year ++ '-' :: (padded 2 month ++ '-' :: (padded 2 day ++ sep :: (timeField a hour ++
      ':' :: (timeField b minute ++ ':' :: (timeField c second ++ tail)))))) =
      some (year ++ '-' :: (padded 2 month ++ '-' :: (padded 2 day ++ sep :: (padded 2 hour ++
        ':' :: (padded 2 minute ++ ':' :: (padded 2 second ++ tail)))))) := by
  have hh := digits12_mark hhour (c := ':') (by decide) a (timeField b minute ++ ':' :: (timeField c second ++ tail))
  have hm := digits12_mark hminute (c := ':') (by decide) b (timeField c second ++ tail)
  have hs := digits12_timeField hsecond c hhead
  rw [padTime_date hlen hyear hmonth hday hsep]
  simp [hh, hm, hs, restOfLine_eq_self htail]

/-- It does not apply where the minutes are the last field. -/
theorem padTime_noSeconds (hlen : year.length = 4) (hyear : allDigits year = true) (hmonth : month < 100)
    (hday : day < 100) {sep : Char} (hsep : sep = 'T' ∨ sep = ' ') (hhour : hour < 100) (hminute : minute < 100)
    (a b : Bool) (hhead : ∀ c ∈ tail.head?, Unicode.digit? c = none ∧ c ≠ ':') :
    padTime (year ++ '-' :: (padded 2 month ++ '-' :: (padded 2 day ++ sep :: (timeField a hour ++
      ':' :: (timeField b minute ++ tail))))) = none := by
  have hh := digits12_mark hhour (c := ':') (by decide) a (timeField b minute ++ tail)
  have hm := digits12_timeField hminute b fun c hc => (hhead c hc).1
  have hcolon : afterChar ':' tail = none := by
    rcases tail with _ | ⟨c, tail⟩
    · rfl
    · exact if_neg (hhead c rfl).2
  rw [padTime_date hlen hyear hmonth hday hsep]
  simp [hh, hm, hcolon]

/-! ### The normalizer on a stamp -/

omit [Unicode] in
theorem text_eq (st : Stamp) (short : Shortened) :
    st.text short = padded 4 st.year ++ '-' :: (timeField short.month st.month ++
      '-' :: (timeField short.day st.day ++ st.sep :: (timeField short.hour st.hour ++
        ':' :: (timeField short.minute st.minute ++ st.rest short)))) := by
  simp [text, monthDay, hourMinute]

/-- What the normalizer leaves short. -/
def unpadded (short : Shortened) (st : Stamp) : Shortened :=
  if st.seconds.isSome then {} else { short with month := false, day := false }

omit [Unicode] in
theorem ending_cases (st : Stamp) :
    st.ending = [] ∨ (∃ t, st.ending = '.' :: t) ∨ ∃ t, st.ending = 'Z' :: t := by
  unfold ending
  rcases st.seconds with _ | ⟨second, _ | digits⟩ <;> cases st.zulu <;> simp

theorem head?_ending {c : Char} (st : Stamp) (h : c ∈ st.ending.head?) : Unicode.digit? c = none ∧ c ≠ ':' := by
  have hmark : c = '.' ∨ c = 'Z' := by
    rcases st.ending_cases with he | ⟨t, he⟩ | ⟨t, he⟩ <;> rw [he] at h <;> cases h
    · exact .inl rfl
    · exact .inr rfl
  rcases hmark with rfl | rfl <;> exact ⟨digit?_mark (by decide), by decide⟩

omit [Unicode] in
theorem Valid.fields_lt (h : st.Valid) : st.month < 100 ∧ st.day < 100 ∧ st.hour < 100 ∧ st.minute < 100 := by
  have hmonth := h.month_le
  have hhour := h.hour_le
  have hminute := h.minute_le
  have hday : st.day ≤ 31 := h.day_le.trans <| by
    unfold DateTime.daysInMonth
    split <;> split <;> decide
  omega

omit [Unicode] in
theorem Valid.length_year (h : st.Valid) : (padded 4 st.year).length = 4 :=
  length_padded (by decide) (Nat.lt_of_le_of_lt h.year_le (by decide))

/-- Month and day are padded in any case. -/
theorem Valid.padDate_text (h : st.Valid) (short : Shortened) :
    padDate (st.text short) = some (st.text { short with month := false, day := false }) := by
  obtain ⟨hmonth, hday, -, -⟩ := h.fields_lt
  rw [text_eq, text_eq]
  refine padDate_eq h.length_year (allDigits_padded 4 st.year) hmonth hday _ _ (fun c hc => ?_) fun c hc => ?_
  · obtain rfl : st.sep = c := Option.some.inj hc
    rcases h.sep_eq with hsep | hsep <;> rw [hsep] <;> exact digit?_mark (by decide)
  · have hmem : c ∈ st.text short := by
      rw [text_eq]
      simp only [List.mem_append, List.mem_cons] at hc ⊢
      tauto
    rcases h.plain hmem with hplain | rfl
    · exact hplain.noSpace.2.2
    · rcases h.sep_eq with hsep | hsep <;> rw [hsep] <;> decide

/-- The time of day is padded where seconds follow. -/
theorem Valid.padTime_text (h : st.Valid) (short : Shortened) :
    padTime (st.text { short with month := false, day := false }) =
      if st.seconds.isSome then some (st.text {}) else none := by
  obtain ⟨hmonth, hday, hhour, hminute⟩ := h.fields_lt
  have hyear := allDigits_padded 4 st.year
  rw [text_eq, text_eq]
  unfold rest
  cases hs : st.seconds with
  | none =>
    simp only [Option.isSome_none, Bool.false_eq_true, if_false]
    exact padTime_noSeconds h.length_year hyear hmonth hday h.sep_eq hhour hminute _ _ fun c => st.head?_ending
  | some s =>
    obtain ⟨second, fraction⟩ := s
    have hsecond : second < 100 := Nat.lt_of_le_of_lt (h.second_le _ hs) (by decide)
    simp only [Option.isSome_some, if_true]
    exact padTime_seconds h.length_year hyear hmonth hday h.sep_eq hhour hminute hsecond _ _ _
      (fun c hc => (st.head?_ending hc).1) fun c hc => (h.plain_ending hc).noSpace.2.2

theorem Valid.normalizeTimestring_text (h : st.Valid) (short : Shortened) :
    normalizeTimestring (st.text short) = st.text (st.unpadded short) := by
  unfold normalizeTimestring unpadded
  simp only [h.strip, h.padDate_text, Option.getD_some, h.padTime_text]
  cases st.seconds <;> rfl

omit [Unicode] in
/-- Without seconds, a stamp is fully padded only if its hour and its minute are. -/
theorem Valid.text_noSeconds (h : st.Valid) (hs : st.seconds = none) (short : Shortened) :
    st.text { short with month := false, day := false } = st.text {} ↔
      (short.hour = true → 10 ≤ st.hour) ∧ (short.minute = true → 10 ≤ st.minute) := by
  obtain ⟨-, -, hhour, hminute⟩ := h.fields_lt
  have hrest : ∀ short, st.rest short = st.ending := fun short => by
    unfold rest
    rw [hs]
  constructor
  · intro heq
    have hlen := congrArg List.length heq
    simp only [text_eq, hrest, List.length_append, List.length_cons, length_timeField _ hhour,
      length_timeField _ hminute, Bool.false_eq_true, false_and, if_false] at hlen
    split at hlen <;> split at hlen <;> first | omega | skip
    rename_i hh hm
    exact ⟨fun hshort => by simpa [hshort] using hh, fun hshort => by simpa [hshort] using hm⟩
  · rintro ⟨hh, hm⟩
    have hpad : ∀ (a : Bool) (n : Nat), n < 100 → (a = true → 10 ≤ n) → timeField a n = timeField false n := by
      intro a n hn ha
      rcases timeField_cases a hn with hf | ⟨hshort, hlt, -⟩
      · exact hf
      · exact absurd (ha hshort) (by omega)
    rw [text_eq, text_eq, hrest, hrest, hpad _ _ hhour hh, hpad _ _ hminute hm]

omit [Unicode] in
/-- Fully padded already. -/
theorem unpadded_padded (st : Stamp) : st.unpadded {} = {} := by
  unfold unpadded
  split <;> rfl

end padding

end Stamp

/-! ### Parsing a stamp -/

section parsing
variable [Iso8601] {st : Stamp} {short : Shortened}

/-- What `parse_timestring` does with a normalized string. -/
def fromIso (t : Text) : Except Exn DateTime :=
  match Iso8601.fromisoformat t with
  | none => .error (.valueError "Invalid isoformat string")
  | some dt => dt.asUtc

/-- `fromisoformat` takes the stamp with two digits in every field, and in no other way. -/
structure Iso8601.TwoDigits (st : Stamp) : Prop where
  accepts : (Iso8601.fromisoformat (st.text {})).isSome = true
  rejects : ∀ short, st.text short ≠ st.text {} → Iso8601.fromisoformat (st.text short) = none

theorem Iso8601.TwoDigits.fromIso_ne (h : Iso8601.TwoDigits st) (hne : st.text short ≠ st.text {}) :
    fromIso (st.text short) ≠ fromIso (st.text {}) := by
  unfold fromIso
  rw [h.rejects short hne]
  obtain ⟨dt, hdt⟩ := Option.isSome_iff_exists.1 h.accepts
  simp only [hdt]
  intro heq
  cases DateTime.asUtc_error heq.symm

theorem Stamp.Valid.parseTimestring_text [Unicode] (h : st.Valid) (short : Shortened) :
    parseTimestring (st.text short) = fromIso (st.text (st.unpadded short)) := by
  unfold parseTimestring fromIso
  rw [h.no_comma, h.normalizeTimestring_text]
  rfl

/-- A single digit changes nothing, but for an hour or a minute without seconds. -/
theorem parseTimestring_short_iff [Unicode] (h : st.Valid) (hiso : Iso8601.TwoDigits st) (short : Shortened) :
    parseTimestring (st.text short) = parseTimestring (st.text {}) ↔
      st.seconds.isSome = true ∨ ((short.hour = true → 10 ≤ st.hour) ∧ (short.minute = true → 10 ≤ st.minute)) := by
  rw [h.parseTimestring_text, h.parseTimestring_text, st.unpadded_padded, Stamp.unpadded]
  cases hs : st.seconds with
  | some s => simp
  | none =>
    simp only [Option.isSome_none, Bool.false_eq_true, if_false, false_or]
    rw [← h.text_noSeconds hs]
    refine ⟨fun heq => ?_, fun heq => by rw [heq]⟩
    by_contra hne
    exact hiso.fromIso_ne hne heq

end parsing

/-! ### The written time of a `datetime` -/

section roundTrip
variable {dt u : DateTime}

/-- The stamp of a time in UTC; a fraction of zero is left out. -/
def Stamp.of (u : DateTime) : Stamp where
  year := u.year
  month := u.month
  day := u.day
  hour := u.hour
  minute := u.minute
  seconds := some (u.second, if u.microsecond ≠ 0 then some (padded 6 u.microsecond) else none)
  zulu := true

theorem DateTime.Valid.stamp (h : u.Valid) : (Stamp.of u).Valid where
  year_pos := h.year_pos
  year_le := h.year_le
  month_pos := h.month_pos
  month_le := h.month_le
  day_pos := h.day_pos
  day_le := h.day_le
  sep_eq := .inl rfl
  hour_le := h.hour_le
  minute_le := h.minute_le
  second_le s hs := by
    obtain rfl := Option.some.inj hs
    exact h.second_le
  fraction s hs digits hdigits := by
    obtain rfl := Option.some.inj hs
    obtain ⟨-, rfl⟩ : u.microsecond ≠ 0 ∧ padded 6 u.microsecond = digits := by
      by_cases hzero : u.microsecond ≠ 0
      · rw [if_pos hzero] at hdigits
        exact ⟨hzero, Option.some.inj hdigits⟩
      · rw [if_neg hzero] at hdigits
        cases hdigits
    exact ⟨List.append_ne_nil_of_right_ne_nil _ (Text.numeral_ne_nil _), fun c => digit_of_mem_padded⟩

theorem padded_year {year : Nat} (h : 1000 ≤ year) : Text.numeral 10 year = padded 4 year := by
  have hlen : 4 ≤ (Text.numeral 10 year).length := by
    rw [Text.numeral, if_neg (by omega), List.length_map, List.length_reverse]
    exact (Nat.lt_digits_length_iff (by decide) year).2 h
  rw [padded, Nat.sub_eq_zero_of_le hlen]
  rfl

theorem toIsoTimestring_eq (hu : dt.asUtc = .ok u) (hyear : 1000 ≤ u.year) :
    toIsoTimestring dt = .ok ((Stamp.of u).text {}) := by
  unfold toIsoTimestring
  rw [hu, Stamp.text_eq]
  by_cases hzero : u.microsecond ≠ 0
  · simp [bind, Except.bind, pure, Except.pure, Stamp.of, Stamp.rest, Stamp.ending, timeField, padded_year hyear, hzero]
  · simp [bind, Except.bind, pure, Except.pure, Stamp.of, Stamp.rest, Stamp.ending, timeField, padded_year hyear, hzero]

theorem toCommaTimestring_eq (hu : dt.asUtc = .ok u) :
    toCommaTimestring dt = .ok (List.intercalate [',']
      ([u.year, u.month, u.day, u.hour, u.minute, u.second].map (Text.numeral 10))) := by
  unfold toCommaTimestring
  rw [hu]
  rfl

/-- The fields of a valid time are taken as they are. -/
theorem DateTime.Valid.make_eq (h : u.Valid) (hoffset : u.utcoffset = some 0) :
    DateTime.make u.year u.month u.day u.hour u.minute u.second = .ok { u with microsecond := 0 } := by
  have hmin : minYear = 1 := rfl
  have hmax : maxYear = 9999 := rfl
  have hyear := h.year_pos
  have hyear' := h.year_le
  have hmonth := h.month_pos
  have hmonth' := h.month_le
  have hday := h.day_pos
  have hday' := h.day_le
  have hlast : u.day ≤ 31 := hday'.trans <| by
    unfold daysInMonth
    split <;> split <;> decide
  have hhour := h.hour_le
  have hminute := h.minute_le
  have hsecond := h.second_le
  unfold DateTime.make
  rw [if_neg (by simp; omega), if_neg (by omega), if_neg (by omega), if_neg (by simp; omega), if_neg (by omega),
    if_neg (by omega), if_neg (by omega)]
  simp [← hoffset]

section comma
variable [Unicode]

theorem mapM_intBase10 : ∀ l : List Nat, (∀ n ∈ l, n < 10000) →
    (l.map (Text.numeral 10)).mapM Text.intBase10 = some (l.map Int.ofNat)
  | [], _ => rfl
  | n :: l, h => by
    have hlen : (Text.numeral 10 n).length ≤ Text.maxStrDigits :=
      Nat.le_trans (Text.length_numeral_le (k := 4) (by decide) (by decide) (h n List.mem_cons_self)) (by decide)
    rw [List.map_cons, List.mapM_cons, Text.intBase10_numeral hlen,
      mapM_intBase10 l fun m hm => h m (List.mem_cons_of_mem _ hm)]
    rfl

variable [Iso8601]

/-- The comma form: no comma stands in a numeral, and none is white space. -/
theorem parseTimestring_comma (h : u.Valid) (hoffset : u.utcoffset = some 0) :
    parseTimestring (List.intercalate [',']
      ([u.year, u.month, u.day, u.hour, u.minute, u.second].map (Text.numeral 10))) =
        .ok { u with microsecond := 0 } := by
  have hparts : ∀ l ∈ [u.year, u.month, u.day, u.hour, u.minute, u.second].map (Text.numeral 10), ',' ∉ l := by
    intro l hl hcomma
    obtain ⟨n, -, rfl⟩ := List.mem_map.1 hl
    obtain ⟨d, hd, heq⟩ := Text.exists_digit_of_mem_numeral (by decide) hcomma
    have hdigit : ∀ d < 10, ',' ≠ Text.digitChar d := by decide
    exact hdigit d hd heq
  have hsplit := List.splitOn_intercalate ',' hparts (by simp)
  have hfields := mapM_intBase10 [u.year, u.month, u.day, u.hour, u.minute, u.second] (by
    have hyear := h.year_le
    have hmax : DateTime.maxYear = 9999 := rfl
    obtain ⟨hmonth, hday, hhour, hminute⟩ := h.stamp.fields_lt
    have hsecond := h.second_le
    simp only [Stamp.of] at hmonth hday hhour hminute
    simp only [List.mem_cons, List.not_mem_nil, or_false, forall_eq_or_imp, forall_eq]
    omega)
  have hnumerals : ∀ w ∈ [u.year, u.month, u.day, u.hour, u.minute, u.second].map (Text.numeral 10),
      ∀ c ∈ w, Text.isSpace c = false := by
    intro w hw
    obtain ⟨n, -, rfl⟩ := List.mem_map.1 hw
    exact fun c => Text.noSpace_numeral c
  have hcomma : ∀ c ∈ [','], Text.isSpace c = false := fun c hc => by rw [List.mem_singleton.1 hc]; rfl
  have hspace := Text.noSpace_intercalate hcomma hnumerals
  unfold parseTimestring
  rw [if_pos (by simp [List.intercalate]), Text.strip_of_noSpace hspace, hsplit, hfields]
  exact h.make_eq hoffset

end comma

/-- `fromisoformat` reads the padded time `YYYY-MM-DDThh:mm:ss[.ffffff]Z` right. -/
def Iso8601.Reads [Iso8601] (u : DateTime) : Prop := Iso8601.fromisoformat ((Stamp.of u).text {}) = some u

/-- Both forms are read back, the comma form without its fraction. -/
theorem parseTimestring_written [Unicode] [Iso8601] (hdt : dt.Valid) (hu : dt.asUtc = .ok u) (hyear : 1000 ≤ u.year)
    (hiso : Iso8601.Reads u) :
    (toIsoTimestring dt >>= parseTimestring) = .ok u ∧
      (toCommaTimestring dt >>= parseTimestring) = .ok { u with microsecond := 0 } := by
  obtain ⟨hvalid, hoffset⟩ := hdt.asUtc hu
  rw [toIsoTimestring_eq hu hyear, toCommaTimestring_eq hu]
  refine ⟨?_, parseTimestring_comma hvalid hoffset⟩
  show parseTimestring ((Stamp.of u).text {}) = .ok u
  rw [hvalid.stamp.parseTimestring_text, Stamp.unpadded_padded, fromIso]
  simp only [show Iso8601.fromisoformat ((Stamp.of u).text {}) = some u from hiso, hvalid.asUtc_self hoffset]

end roundTrip

/-! ### Two stamps -/

/-- A parser that reads one string. -/
abbrev Iso8601.only (t : Text) (dt : DateTime) : Iso8601 := ⟨fun s => if s = t then some dt else none⟩

theorem Iso8601.twoDigits_only (st : Stamp) (dt : DateTime) : @Iso8601.TwoDigits (.only (st.text {}) dt) st :=
  @Iso8601.TwoDigits.mk (.only (st.text {}) dt) st (Option.isSome_iff_exists.2 ⟨dt, if_pos rfl⟩) fun _ h => if_neg h

/-- Four minutes past three, and five seconds. -/
def secondsStamp : Stamp :=
  { year := 2024, month := 1, day := 2, sep := ' ', hour := 3, minute := 4, seconds := some (5, none), zulu := true }

/-- The same time without its seconds. -/
def minutesStamp : Stamp :=
  { year := 2024, month := 1, day := 2, hour := 3, minute := 4, seconds := none, zulu := false }

theorem valid_minutesStamp : minutesStamp.Valid :=
  ⟨by decide, by decide, by decide, by decide, by decide, by decide, .inl rfl, by decide, by decide, nofun, nofun⟩

/-- `2024-1-2 3:4:5Z` for `2024-01-02 03:04:05Z`. -/
theorem parseTimestring_secondsStamp :
    @parseTimestring Externals.bare.toUnicode (.only "2024-01-02 03:04:05Z".toList ⟨2024, 1, 2, 3, 4, 5, 0, some 0⟩)
        "2024-1-2 3:4:5Z".toList =
      @parseTimestring Externals.bare.toUnicode (.only "2024-01-02 03:04:05Z".toList ⟨2024, 1, 2, 3, 4, 5, 0, some 0⟩)
        "2024-01-02 03:04:05Z".toList := by
  have hvalid : secondsStamp.Valid :=
    ⟨by decide, by decide, by decide, by decide, by decide, by decide, .inr rfl, by decide, by decide,
      fun s hs => by obtain rfl := Option.some.inj hs; decide, fun s hs => by obtain rfl := Option.some.inj hs; nofun⟩
  exact (@parseTimestring_short_iff (.only (secondsStamp.text {}) ⟨2024, 1, 2, 3, 4, 5, 0, some 0⟩) secondsStamp
    Externals.bare.toUnicode hvalid (Iso8601.twoDigits_only _ _)
    { month := true, day := true, hour := true, minute := true, second := true }).2 (.inl rfl)

/-- The hour of `2024-01-02T3:04` is not padded, and the string is refused. -/
theorem hour_not_padded :
    @parseTimestring Externals.bare.toUnicode (.only "2024-01-02T03:04".toList ⟨2024, 1, 2, 3, 4, 0, 0, none⟩)
        "2024-01-02T3:04".toList = .error (.valueError "Invalid isoformat string") ∧
      @parseTimestring Externals.bare.toUnicode (.only "2024-01-02T03:04".toList ⟨2024, 1, 2, 3, 4, 0, 0, none⟩)
        "2024-01-02T03:04".toList = .ok ⟨2024, 1, 2, 3, 4, 0, 0, some 0⟩ ∧
      ¬ ∀ st short, st.Valid → @Iso8601.TwoDigits (.only (minutesStamp.text {}) ⟨2024, 1, 2, 3, 4, 0, 0, none⟩) st →
        @parseTimestring Externals.bare.toUnicode (.only (minutesStamp.text {}) ⟨2024, 1, 2, 3, 4, 0, 0, none⟩)
            (st.text short) =
          @parseTimestring Externals.bare.toUnicode (.only (minutesStamp.text {}) ⟨2024, 1, 2, 3, 4, 0, 0, none⟩)
            (st.text {}) := by
  let _ := Externals.bare
  let _ := Iso8601.only (minutesStamp.text {}) ⟨2024, 1, 2, 3, 4, 0, 0, none⟩
  refine ⟨rfl, rfl, fun h => ?_⟩
  have heq := h minutesStamp { hour := true } valid_minutesStamp (Iso8601.twoDigits_only _ _)
  rw [valid_minutesStamp.parseTimestring_text, valid_minutesStamp.parseTimestring_text] at heq
  exact (Iso8601.twoDigits_only _ _).fromIso_ne (by decide) heq

/-- Half past eleven at night on a leap day, one hour east. -/
theorem parseTimestring_written_leapDay :
    (toIsoTimestring ⟨2024, 2, 29, 23, 30, 5, 250000, some 3600000000⟩ >>=
        @parseTimestring Externals.bare.toUnicode
          (.only "2024-02-29T22:30:05.250000Z".toList ⟨2024, 2, 29, 22, 30, 5, 250000, some 0⟩)) =
        .ok ⟨2024, 2, 29, 22, 30, 5, 250000, some 0⟩ ∧
      (toCommaTimestring ⟨2024, 2, 29, 23, 30, 5, 250000, some 3600000000⟩ >>=
        @parseTimestring Externals.bare.toUnicode
          (.only "2024-02-29T22:30:05.250000Z".toList ⟨2024, 2, 29, 22, 30, 5, 250000, some 0⟩)) =
        .ok ⟨2024, 2, 29, 22, 30, 5, 0, some 0⟩ := by
  have hvalid : DateTime.Valid ⟨2024, 2, 29, 23, 30, 5, 250000, some 3600000000⟩ :=
    ⟨by decide, by decide, by decide, by decide, by decide, by decide, by decide, by decide, by decide, by decide,
      fun offset ho => by obtain rfl := Option.some.inj ho; decide⟩
  exact @parseTimestring_written ⟨2024, 2, 29, 23, 30, 5, 250000, some 3600000000⟩
    ⟨2024, 2, 29, 22, 30, 5, 250000, some 0⟩ Externals.bare.toUnicode
    (.only "2024-02-29T22:30:05.250000Z".toList ⟨2024, 2, 29, 22, 30, 5, 250000, some 0⟩) hvalid rfl
    (by decide) rfl

end SeedLink
