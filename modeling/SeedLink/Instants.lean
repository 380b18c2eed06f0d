import SeedLink.Plans

/-!
# Times that leave the calendar

A date and time of day is written in UTC, and its offset may carry it before the first day or behind the last
one; a field of a comma-delimited time may be too large to be a date at all. These are the two ways in which
reading a time string overflows (`overflows_iff`).
-/

namespace SeedLink

namespace DateTime

/-- What the constructor of a `datetime` guarantees. -/
structure Valid (dt : DateTime) : Prop where
  year_pos : 1 ≤ dt.year
  year_le : dt.year ≤ maxYear
  month_pos : 1 ≤ dt.month
  month_le : dt.month ≤ 12
  day_pos : 1 ≤ dt.day
  day_le : dt.day ≤ daysInMonth dt.year dt.month
  hour_le : dt.hour ≤ 23
  minute_le : dt.minute ≤ 59
  second_le : dt.second ≤ 59
  microsecond_lt : dt.microsecond < 1000000
  utcoffset_lt : ∀ offset ∈ dt.utcoffset, -microsPerDay < offset ∧ offset < microsPerDay

/-- The offset leads before the first day or behind the last. -/
inductive LeavesCalendar (dt : DateTime) (offset : Int) : Prop
  | first (ht : dt.timeOfDay - offset < 0) (hy : dt.year = minYear) (hm : dt.month = 1) (hd : dt.day = 1)
  | last (ht : microsPerDay ≤ dt.timeOfDay - offset) (hy : dt.year = maxYear) (hm : dt.month = 12) (hd : dt.day = 31)

variable {dt : DateTime}

theorem timeOfDay_nonneg (dt : DateTime) : 0 ≤ dt.timeOfDay := by
  unfold timeOfDay
  positivity

theorem Valid.timeOfDay_lt (h : dt.Valid) : dt.timeOfDay < microsPerDay := by
  have := h.hour_le
  have := h.minute_le
  have := h.second_le
  have := h.microsecond_lt
  unfold timeOfDay microsPerDay
  omega

theorem atTime_timeOfDay_lt {t : Nat} (h : (t : Int) < microsPerDay) : (dt.atTime t).timeOfDay < microsPerDay := by
  unfold microsPerDay at h
  simp only [timeOfDay, atTime, microsPerDay]
  omega

theorem Valid.prevDay_eq_none (h : dt.Valid) : dt.prevDay = none ↔ dt.year = minYear ∧ dt.month = 1 ∧ dt.day = 1 := by
  have := h.year_pos
  have := h.month_pos
  have := h.day_pos
  unfold prevDay minYear
  split
  · simp only [reduceCtorEq, false_iff]
    omega
  split
  · simp only [reduceCtorEq, false_iff]
    omega
  split
  · simp only [reduceCtorEq, false_iff]
    omega
  · simp only [true_iff]
    omega

theorem Valid.nextDay_eq_none (h : dt.Valid) : dt.nextDay = none ↔ dt.year = maxYear ∧ dt.month = 12 ∧ dt.day = 31 := by
  have hyear := h.year_le
  have hmonth := h.month_le
  have hday := h.day_le
  unfold nextDay
  split
  · rename_i hlt
    simp only [reduceCtorEq, false_iff]
    rintro ⟨-, hm, hd⟩
    rw [hm, hd] at hlt
    exact absurd hlt (by simp [daysInMonth])
  split
  · simp only [reduceCtorEq, false_iff]
    omega
  split
  · simp only [reduceCtorEq, false_iff]
    omega
  · rename_i hge hm hy
    simp only [true_iff]
    have hm12 : dt.month = 12 := by omega
    refine ⟨by omega, hm12, ?_⟩
    rw [hm12] at hge hday
    have h31 : daysInMonth dt.year 12 = 31 := by simp [daysInMonth]
    omega

theorem Valid.toUtc_eq_error (h : dt.Valid) {offset : Int} :
    dt.toUtc offset = .error .overflowError ↔ dt.LeavesCalendar offset := by
  have hprev := h.prevDay_eq_none
  have hnext := h.nextDay_eq_none
  unfold toUtc
  simp only
  by_cases hneg : dt.timeOfDay - offset < 0
  · rw [if_pos hneg]
    cases hd : dt.prevDay with
    | none =>
      obtain ⟨hy, hm, hd⟩ := hprev.1 hd
      exact iff_of_true rfl (.first hneg hy hm hd)
    | some d =>
      refine iff_of_false (fun heq => by cases heq) fun hl => ?_
      cases hl with
      | first _ hy hm hday =>
        rw [hprev.2 ⟨hy, hm, hday⟩] at hd
        cases hd
      | last ht => unfold microsPerDay at ht; omega
  rw [if_neg hneg]
  by_cases hlt : dt.timeOfDay - offset < microsPerDay
  · rw [if_pos hlt]
    refine iff_of_false (fun heq => by cases heq) fun hl => ?_
    cases hl with
    | first ht => exact hneg ht
    | last ht => omega
  rw [if_neg hlt]
  cases hd : dt.nextDay with
  | none =>
    obtain ⟨hy, hm, hd⟩ := hnext.1 hd
    exact iff_of_true rfl (.last (not_lt.1 hlt) hy hm hd)
  | some d =>
    refine iff_of_false (fun heq => by cases heq) fun hl => ?_
    cases hl with
    | first ht => exact hneg ht
    | last _ hy hm hday =>
      rw [hnext.2 ⟨hy, hm, hday⟩] at hd
      cases hd

/-- A time in UTC has a time of day. -/
structure Utc (dt : DateTime) : Prop where
  utcoffset_eq : dt.utcoffset = some 0
  timeOfDay_lt : dt.timeOfDay < microsPerDay

theorem toUtc_utc {dt' : DateTime} {offset : Int} (hv : dt.Valid) (hlt : offset < microsPerDay)
    (hgt : -microsPerDay < offset) (h : dt.toUtc offset = .ok dt') : dt'.Utc := by
  have hat : ∀ (d : DateTime) (t : Int), 0 ≤ t → t < microsPerDay → (d.atTime t.toNat).Utc := fun d t h0 hlt =>
    ⟨rfl, atTime_timeOfDay_lt (by rwa [Int.toNat_of_nonneg h0])⟩
  have h0 := dt.timeOfDay_nonneg
  have hday := hv.timeOfDay_lt
  unfold toUtc at h
  simp only at h
  split at h
  · rename_i d hd
    cases h
    split at hd
    · obtain ⟨d', -, rfl⟩ := Option.map_eq_some_iff.1 hd
      exact hat d' _ (by omega) (by omega)
    split at hd
    · cases hd
      exact hat dt _ (by omega) (by omega)
    · obtain ⟨d', -, rfl⟩ := Option.map_eq_some_iff.1 hd
      exact hat d' _ (by omega) (by omega)
  · cases h

/-- A time of day within the day stays on that day. -/
theorem toUtc_within {offset : Int} (h0 : ¬ dt.timeOfDay - offset < 0) (hlt : dt.timeOfDay - offset < microsPerDay) :
    dt.toUtc offset = .ok (dt.atTime (dt.timeOfDay - offset).toNat) := by
  unfold toUtc
  generalize dt.timeOfDay - offset = t at h0 hlt ⊢
  simp only [if_neg h0, if_pos hlt]

theorem Utc.asUtc (h : dt.Utc) : dt.asUtc = .ok (dt.atTime (dt.timeOfDay - 0).toNat) := by
  unfold DateTime.asUtc
  rw [h.utcoffset_eq]
  refine toUtc_within ?_ ?_
  · rw [sub_zero]
    exact not_lt.2 dt.timeOfDay_nonneg
  · rw [sub_zero]
    exact h.timeOfDay_lt

theorem Utc.toCommaTimestring (h : dt.Utc) : ∃ w, SeedLink.toCommaTimestring dt = .ok w := by
  unfold SeedLink.toCommaTimestring
  rw [h.asUtc]
  exact ⟨_, rfl⟩

theorem daysInMonth_pos (year month : Nat) : 1 ≤ daysInMonth year month := by
  unfold daysInMonth
  split <;> split <;> decide

/-- Another time on the same day. -/
theorem Valid.atTime {d : DateTime} (h : d.Valid) {t : Int} (h0 : 0 ≤ t) (hlt : t < microsPerDay) :
    (d.atTime t.toNat).Valid := by
  unfold microsPerDay at hlt
  refine { h with hour_le := ?_, minute_le := ?_, second_le := ?_, microsecond_lt := ?_, utcoffset_lt := ?_ }
  · simp only [DateTime.atTime]
    omega
  · simp only [DateTime.atTime]
    omega
  · simp only [DateTime.atTime]
    omega
  · simp only [DateTime.atTime]
    omega
  · intro offset hoffset
    obtain rfl : 0 = offset := Option.some.inj hoffset
    exact ⟨by decide, by decide⟩

theorem Valid.prevDay {d : DateTime} (h : dt.Valid) (hd : dt.prevDay = some d) : d.Valid := by
  have hday := h.day_le
  have hmonth := h.month_le
  have hyear := h.year_le
  unfold DateTime.prevDay at hd
  split at hd
  · cases hd
    exact { h with day_pos := by show 1 ≤ dt.day - 1; omega,
                   day_le := by show dt.day - 1 ≤ daysInMonth dt.year dt.month; omega }
  split at hd
  · cases hd
    exact { h with month_pos := by show 1 ≤ dt.month - 1; omega, month_le := by show dt.month - 1 ≤ 12; omega,
                   day_pos := daysInMonth_pos _ _, day_le := Nat.le_refl _ }
  split at hd
  · rename_i hmin
    cases hd
    unfold minYear at hmin
    exact { h with year_pos := by show 1 ≤ dt.year - 1; omega, year_le := by show dt.year - 1 ≤ maxYear; omega,
                   month_pos := (by decide : 1 ≤ 12), month_le := Nat.le_refl _, day_pos := (by decide : 1 ≤ 31),
                   day_le := by simp [daysInMonth] }
  · cases hd

theorem Valid.nextDay {d : DateTime} (h : dt.Valid) (hd : dt.nextDay = some d) : d.Valid := by
  unfold DateTime.nextDay at hd
  split at hd
  · cases hd
    exact { h with day_pos := Nat.le_add_left _ _, day_le := ‹_› }
  split at hd
  · cases hd
    exact { h with month_pos := Nat.le_add_left _ _, month_le := ‹_›, day_pos := Nat.le_refl _,
                   day_le := daysInMonth_pos _ _ }
  split at hd
  · cases hd
    exact { h with year_pos := Nat.le_add_left _ _, year_le := ‹_›, month_pos := Nat.le_refl _,
                   month_le := (by decide : 1 ≤ 12), day_pos := Nat.le_refl _, day_le := daysInMonth_pos _ _ }
  · cases hd

/-- A date and time of day stays one in UTC. -/
theorem Valid.asUtc {u : DateTime} (h : dt.Valid) (hu : dt.asUtc = .ok u) : u.Valid ∧ u.utcoffset = some 0 := by
  unfold DateTime.asUtc at hu
  cases hoffset : dt.utcoffset with
  | none =>
    rw [hoffset] at hu
    cases hu
    refine ⟨{ h with utcoffset_lt := fun offset ho => ?_ }, rfl⟩
    obtain rfl : 0 = offset := Option.some.inj ho
    exact ⟨by decide, by decide⟩
  | some offset =>
    rw [hoffset] at hu
    obtain ⟨hgt, hlt⟩ := h.utcoffset_lt offset hoffset
    have h0 := dt.timeOfDay_nonneg
    have hday := h.timeOfDay_lt
    refine ⟨?_, (toUtc_utc h hlt hgt hu).utcoffset_eq⟩
    unfold toUtc at hu
    simp only at hu
    split at hu
    · rename_i d hd
      cases hu
      split at hd
      · obtain ⟨d', hprev, rfl⟩ := Option.map_eq_some_iff.1 hd
        exact (h.prevDay hprev).atTime (by omega) (by omega)
      split at hd
      · cases hd
        exact h.atTime (by omega) (by omega)
      · obtain ⟨d', hnext, rfl⟩ := Option.map_eq_some_iff.1 hd
        exact (h.nextDay hnext).atTime (by omega) (by omega)
    · cases hu

/-- A time in UTC is the same in UTC. -/
theorem Valid.asUtc_self (h : dt.Valid) (hoffset : dt.utcoffset = some 0) : dt.asUtc = .ok dt := by
  have hminute := h.minute_le
  have hsecond := h.second_le
  have hmicro := h.microsecond_lt
  rw [Utc.asUtc ⟨hoffset, h.timeOfDay_lt⟩, sub_zero]
  congr 1
  obtain ⟨year, month, day, hour, minute, second, microsecond, utcoffset⟩ := dt
  obtain rfl : utcoffset = some 0 := hoffset
  simp only [DateTime.atTime, timeOfDay, DateTime.mk.injEq, true_and, and_true] at hminute hsecond hmicro ⊢
  refine ⟨?_, ?_, ?_, ?_⟩ <;> omega

section make
variable {year month day hour minute second : Int}

theorem make_eq_overflow : make year month day hour minute second = .error .overflowError ↔
    ∃ f ∈ [year, month, day, hour, minute, second], f < -2147483648 ∨ 2147483647 < f := by
  unfold make
  by_cases hany : [year, month, day, hour, minute, second].any (fun f => f < -2147483648 ∨ 2147483647 < f) = true
  · rw [if_pos hany]
    refine iff_of_true rfl ?_
    obtain ⟨f, hmem, hf⟩ := List.any_eq_true.1 hany
    exact ⟨f, hmem, of_decide_eq_true hf⟩
  · rw [if_neg hany]
    refine iff_of_false (fun h => ?_) fun ⟨f, hmem, hf⟩ =>
      hany (List.any_eq_true.2 ⟨f, hmem, decide_eq_true hf⟩)
    repeat (split at h; · cases h)
    cases h

theorem make_error' {e : Exn} (h : make year month day hour minute second = .error e) :
    e = .overflowError ∨ e.isValueError = true := by
  unfold make at h
  split at h
  · cases h
    exact .inl rfl
  repeat (split at h; · cases h; exact .inr rfl)
  cases h

theorem make_utc {dt : DateTime} (h : make year month day hour minute second = .ok dt) : dt.Utc := by
  unfold make at h
  split at h
  · cases h
  split at h
  · cases h
  split at h
  · cases h
  split at h
  · cases h
  split at h
  · cases h
  split at h
  · cases h
  split at h
  · cases h
  rename_i hhour hminute hsecond
  cases h
  refine ⟨rfl, ?_⟩
  simp only [timeOfDay, microsPerDay]
  omega

end make

end DateTime

section strings
variable [Unicode] [Iso8601]

/-- What the parser returns is a `datetime`. -/
def Iso8601.WellFormed : Prop := ∀ t dt, Iso8601.fromisoformat t = some dt → dt.Valid

/-- A time string that is read and overflows. -/
inductive Overflows (t : Text) : Prop
  | comma {parts : List Int} {f : Int} (h : t.contains ',' = true)
      (hparts : ((Text.strip t).splitOn ',').mapM Text.intBase10 = some parts) (hmem : f ∈ parts.take 6)
      (hf : f < -2147483648 ∨ 2147483647 < f)
  | offset {dt : DateTime} {offset : Int} (h : t.contains ',' = false)
      (hdt : Iso8601.fromisoformat (normalizeTimestring t) = some dt) (hoffset : dt.utcoffset = some offset)
      (hleaves : dt.LeavesCalendar offset)

omit [Unicode] [Iso8601] in
theorem exists_commaFields (parts : List Int) : ∃ year month day hour minute second rest,
    commaFields parts = year :: month :: day :: hour :: minute :: second :: rest ∧
      ∀ f, f < -2147483648 ∨ 2147483647 < f →
        (f ∈ [year, month, day, hour, minute, second] ↔ f ∈ parts.take 6) := by
  have hdefault : ∀ f : Int, f < -2147483648 ∨ 2147483647 < f → f ≠ 0 ∧ f ≠ 1 := by
    intro f hf
    omega
  rcases parts with _ | ⟨a, _ | ⟨b, _ | ⟨c, _ | ⟨d, _ | ⟨e, _ | ⟨g, rest⟩⟩⟩⟩⟩⟩
  · exact ⟨1, 1, 1, 0, 0, 0, [], rfl, fun f hf => by simp [hdefault f hf]⟩
  · exact ⟨a, 1, 1, 0, 0, 0, [], rfl, fun f hf => by simp [hdefault f hf]⟩
  · exact ⟨a, b, 1, 0, 0, 0, [], rfl, fun f hf => by simp [hdefault f hf]⟩
  · exact ⟨a, b, c, 0, 0, 0, [], rfl, fun f hf => by simp [hdefault f hf]⟩
  · exact ⟨a, b, c, d, 0, 0, [], rfl, fun f hf => by simp [hdefault f hf]⟩
  · exact ⟨a, b, c, d, e, 0, [], rfl, fun f hf => by simp [hdefault f hf]⟩
  · exact ⟨a, b, c, d, e, g, rest, by simp [commaFields], fun f hf => by simp⟩

omit [Unicode] [Iso8601] in
theorem bind_toCommaTimestring {x : Except Exn DateTime} (h : ∀ dt, x = .ok dt → dt.Utc) :
    (x >>= toCommaTimestring) = .error .overflowError ↔ x = .error .overflowError := by
  cases x with
  | error e =>
    show (Except.error e : Except Exn Text) = .error .overflowError ↔ _
    rw [Except.error.injEq, Except.error.injEq]
  | ok dt =>
    obtain ⟨w, hw⟩ := (h dt rfl).toCommaTimestring
    refine iff_of_false (fun heq => ?_) fun heq => by cases heq
    rw [show (Except.ok dt >>= toCommaTimestring) = toCommaTimestring dt from rfl, hw] at heq
    cases heq

/-- Writing a time string in comma form overflows for these strings only. -/
theorem overflows_iff (hiso : Iso8601.WellFormed) {t : Text} :
    (parseTimestring t >>= toCommaTimestring) = .error .overflowError ↔ Overflows t := by
  unfold parseTimestring
  cases hc : t.contains ',' with
  | true =>
    rw [if_pos rfl]
    cases hparts : ((Text.strip t).splitOn ',').mapM Text.intBase10 with
    | none =>
      refine iff_of_false (fun heq => by cases heq) fun h => ?_
      cases h with
      | comma _ hparts' => rw [hparts] at hparts'; cases hparts'
      | offset hc' => rw [hc] at hc'; cases hc'
    | some parts =>
      obtain ⟨year, month, day, hour, minute, second, rest, hfields, hmem⟩ := exists_commaFields parts
      simp only [hfields]
      rw [bind_toCommaTimestring fun dt h => DateTime.make_utc h, DateTime.make_eq_overflow]
      constructor
      · rintro ⟨f, hf, hrange⟩
        exact .comma hc hparts ((hmem f hrange).1 hf) hrange
      · intro h
        cases h with
        | comma _ hparts' hf hrange =>
          rw [hparts] at hparts'
          cases hparts'
          exact ⟨_, (hmem _ hrange).2 hf, hrange⟩
        | offset hc' => rw [hc] at hc'; cases hc'
  | false =>
    rw [if_neg Bool.false_ne_true]
    cases hdt : Iso8601.fromisoformat (normalizeTimestring t) with
    | none =>
      refine iff_of_false (fun heq => by cases heq) fun h => ?_
      cases h with
      | comma hc' => rw [hc] at hc'; cases hc'
      | offset _ hdt' => rw [hdt] at hdt'; cases hdt'
    | some dt =>
    have hv := hiso _ _ hdt
    have hoverflow : dt.asUtc = .error .overflowError ↔
        ∃ offset, dt.utcoffset = some offset ∧ dt.LeavesCalendar offset := by
      unfold DateTime.asUtc
      cases hoffset : dt.utcoffset with
      | none => simp
      | some offset => simp [hv.toUtc_eq_error]
    have hutc : ∀ dt', dt.asUtc = .ok dt' → dt'.Utc := by
      intro dt' h
      unfold DateTime.asUtc at h
      cases hoffset : dt.utcoffset with
      | none =>
        rw [hoffset] at h
        cases h
        exact ⟨rfl, hv.timeOfDay_lt⟩
      | some offset =>
        rw [hoffset] at h
        obtain ⟨hgt, hlt⟩ := hv.utcoffset_lt offset hoffset
        exact DateTime.toUtc_utc hv hlt hgt h
    simp only
    rw [bind_toCommaTimestring hutc, hoverflow]
    constructor
    · rintro ⟨offset, hoffset, hleaves⟩
      exact .offset hc hdt hoffset hleaves
    · intro h
      cases h with
      | comma hc' => rw [hc] at hc'; cases hc'
      | offset _ hdt' hoffset hleaves =>
        rw [hdt] at hdt'
        cases hdt'
        exact ⟨_, hoffset, hleaves⟩

/-- It raises nothing but that and `ValueError`. -/
theorem commaForm_error {t : Text} {e : Exn} (h : (parseTimestring t >>= toCommaTimestring) = .error e) :
    e = .overflowError ∨ e.isValueError = true := by
  have hparse : ∀ e, parseTimestring t = .error e → e = .overflowError ∨ e.isValueError = true := by
    intro e h
    unfold parseTimestring at h
    split at h
    · split at h
      · cases h
        exact .inr rfl
      split at h
      · exact DateTime.make_error' h
      · cases h
        exact .inr rfl
    · split at h
      · cases h
        exact .inr rfl
      · exact .inl (DateTime.asUtc_error h)
  cases ht : parseTimestring t with
  | error e' =>
    rw [ht] at h
    cases h
    exact hparse e ht
  | ok dt =>
    rw [ht] at h
    exact .inl (toCommaTimestring_error h)

end strings

end SeedLink
