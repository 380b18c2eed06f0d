import SeedLink.Lib.Unicode
import SeedLink.Protocol

/-!
# Time strings (`time_utils.py`)

Dates with a time of day and an optional offset from UTC, the conversion to UTC, and the two
SeedLink time formats. `datetime.fromisoformat` is a parameter.
-/

namespace SeedLink

/-- A `datetime`; `utcoffset` in microseconds, `none` for a naive one. -/
structure DateTime where
  year : Nat
  month : Nat
  day : Nat
  hour : Nat
  minute : Nat
  second : Nat
  microsecond : Nat
  utcoffset : Option Int
  deriving DecidableEq, Repr

namespace DateTime

def isLeap (year : Nat) : Bool := year % 4 = 0 && (year % 100 ≠ 0 || year % 400 = 0)

def daysInMonth (year month : Nat) : Nat :=
  if month = 2 then if isLeap year then 29 else 28
  else if month = 4 ∨ month = 6 ∨ month = 9 ∨ month = 11 then 30
  else 31

def minYear : Nat := 1
def maxYear : Nat := 9999

/-- The day after, `none` when it lies beyond the last year. -/
def nextDay (dt : DateTime) : Option DateTime :=
  if dt.day < daysInMonth dt.year dt.month then some { dt with day := dt.day + 1 }
  else if dt.month < 12 then some { dt with month := dt.month + 1, day := 1 }
  else if dt.year < maxYear then some { dt with year := dt.year + 1, month := 1, day := 1 }
  else none

/-- The day before, `none` when it lies before the first year. -/
def prevDay (dt : DateTime) : Option DateTime :=
  if 1 < dt.day then some { dt with day := dt.day - 1 }
  else if 1 < dt.month then
    some { dt with month := dt.month - 1, day := daysInMonth dt.year (dt.month - 1) }
  else if minYear < dt.year then some { dt with year := dt.year - 1, month := 12, day := 31 }
  else none

def microsPerDay : Int := 86400 * 1000000

/-- Microseconds since midnight. -/
def timeOfDay (dt : DateTime) : Int :=
  ((dt.hour * 60 + dt.minute) * 60 + dt.second) * 1000000 + dt.microsecond

/-- The same day at another time, given in microseconds since midnight. -/
def atTime (dt : DateTime) (t : Nat) : DateTime :=
  { dt with hour := t / 3600000000, minute := t / 60000000 % 60, second := t / 1000000 % 60,
            microsecond := t % 1000000, utcoffset := some 0 }

/-- `dt.astimezone(timezone.utc)` for the offset of an aware `datetime`; an offset is less than a
day. -/
def toUtc (dt : DateTime) (offset : Int) : Except Exn DateTime :=
  let t := dt.timeOfDay - offset
  let shifted :=
    if t < 0 then dt.prevDay.map fun d => d.atTime (t + microsPerDay).toNat
    else if t < microsPerDay then some (dt.atTime t.toNat)
    else dt.nextDay.map fun d => d.atTime (t - microsPerDay).toNat
  match shifted with
  | some d => .ok d
  | none => .error .overflowError

/-- `_as_utc`: a naive `datetime` is read as UTC. -/
def asUtc (dt : DateTime) : Except Exn DateTime :=
  match dt.utcoffset with
  | none => .ok { dt with utcoffset := some 0 }
  | some offset => toUtc dt offset

/-- `datetime(year, month, day, hour, minute, second, tzinfo=timezone.utc)`. A field that does not
fit a C `int` overflows. -/
def make (year month day hour minute second : Int) : Except Exn DateTime :=
  if [year, month, day, hour, minute, second].any (fun f => f < -2147483648 ∨ 2147483647 < f) then
    .error .overflowError
  else if year < minYear ∨ maxYear < year then .error (.valueError s!"year {year} is out of range")
  else if month < 1 ∨ 12 < month then .error (.valueError "month must be in 1..12")
  else if day < 1 ∨ daysInMonth year.toNat month.toNat < day then
    .error (.valueError "day is out of range for month")
  else if hour < 0 ∨ 23 < hour then .error (.valueError "hour must be in 0..23")
  else if minute < 0 ∨ 59 < minute then .error (.valueError "minute must be in 0..59")
  else if second < 0 ∨ 59 < second then .error (.valueError "second must be in 0..59")
  else
    .ok { year := year.toNat, month := month.toNat, day := day.toNat, hour := hour.toNat,
          minute := minute.toNat, second := second.toNat, microsecond := 0, utcoffset := some 0 }

end DateTime

/-- The `datetime` parser of the standard library. -/
class Iso8601 where
  /-- `datetime.fromisoformat`, `none` for `ValueError`. -/
  fromisoformat : Text → Option DateTime

/-- A number in at least `width` digits. -/
def padded (width n : Nat) : Text :=
  let digits := Text.numeral 10 n
  List.replicate (width - digits.length) '0' ++ digits

section normalize
variable [Unicode]

/-- One or two digits at the front, as many as there are: their value, and what follows. -/
def digits12 (s : Text) : Option (Nat × Text) :=
  match s with
  | [] => none
  | c :: rest =>
    match Unicode.digit? c with
    | none => none
    | some d =>
      match rest with
      | [] => some (d, [])
      | c' :: rest' =>
        match Unicode.digit? c' with
        | none => some (d, rest)
        | some d' => some (d * 10 + d', rest')

/-- A separator at the front, and what follows. -/
def afterChar (c : Char) (s : Text) : Option Text :=
  match s with
  | c' :: rest => if c' = c then some rest else none
  | [] => none

def allDigits (s : Text) : Bool := s.all fun c => (Unicode.digit? c).isSome

/-- `.*`: everything up to the end of the line. -/
def restOfLine (s : Text) : Text := s.takeWhile (· ≠ '\n')

/-- Zero-pads a single-digit month and day. -/
def padDate (s : Text) : Option Text := do
  let year := s.take 4
  guard (year.length = 4 ∧ allDigits year = true)
  let r ← afterChar '-' (s.drop 4)
  let (month, r) ← digits12 r
  let r ← afterChar '-' r
  let (day, r) ← digits12 r
  return year ++ '-' :: padded 2 month ++ '-' :: padded 2 day ++ restOfLine r

/-- Zero-pads a single-digit hour, minute and second. -/
def padTime (s : Text) : Option Text := do
  let date := s.take 11
  guard (date.length = 11 ∧ allDigits (date.take 4) = true ∧ (date.drop 4).take 1 = ['-'] ∧
    allDigits ((date.drop 5).take 2) = true ∧ (date.drop 7).take 1 = ['-'] ∧
    allDigits ((date.drop 8).take 2) = true ∧
    ((date.drop 10).take 1 = ['T'] ∨ (date.drop 10).take 1 = [' ']))
  let (hour, r) ← digits12 (s.drop 11)
  let r ← afterChar ':' r
  let (minute, r) ← digits12 r
  let r ← afterChar ':' r
  let (second, r) ← digits12 r
  return date ++ padded 2 hour ++ ':' :: padded 2 minute ++ ':' :: padded 2 second ++ restOfLine r

def normalizeTimestring (timestring : Text) : Text :=
  let s := Text.strip timestring
  let s := (padDate s).getD s
  (padTime s).getD s

variable [Iso8601]

/-- The fields of a comma-delimited time, the missing ones filled from the defaults. -/
def commaFields (parts : List Int) : List Int := parts ++ [1, 1, 1, 0, 0, 0].drop parts.length

def parseTimestring (timestring : Text) : Except Exn DateTime :=
  if timestring.contains ',' then
    match ((Text.strip timestring).splitOn ',').mapM Text.intBase10 with
    | none => .error (.valueError "invalid literal for int() with base 10")
    | some parts =>
      match commaFields parts with
      | year :: month :: day :: hour :: minute :: second :: _ =>
        DateTime.make year month day hour minute second
      | _ => .error (.valueError "not enough values to unpack")
  else
    match Iso8601.fromisoformat (normalizeTimestring timestring) with
    | none => .error (.valueError "Invalid isoformat string")
    | some dt => dt.asUtc

end normalize

def toIsoTimestring (dt : DateTime) : Except Exn Text := do
  let dt ← dt.asUtc
  let seconds := Text.numeral 10 dt.year ++ '-' :: padded 2 dt.month ++ '-' :: padded 2 dt.day ++
    'T' :: padded 2 dt.hour ++ ':' :: padded 2 dt.minute ++ ':' :: padded 2 dt.second
  return if dt.microsecond ≠ 0 then seconds ++ '.' :: padded 6 dt.microsecond ++ ['Z']
    else seconds ++ ['Z']

def toCommaTimestring (dt : DateTime) : Except Exn Text := do
  let dt ← dt.asUtc
  return List.intercalate [','] ([dt.year, dt.month, dt.day, dt.hour, dt.minute, dt.second].map
    (Text.numeral 10))

/-! ### What they raise -/

section raises
variable {dt : DateTime} {e : Exn}

theorem DateTime.toUtc_error {offset : Int} (h : dt.toUtc offset = .error e) : e = .overflowError := by
  unfold toUtc at h
  simp only at h
  split at h <;> cases h
  rfl

theorem DateTime.asUtc_error (h : dt.asUtc = .error e) : e = .overflowError := by
  unfold asUtc at h
  split at h
  · cases h
  · exact toUtc_error h

theorem toIsoTimestring_error (h : toIsoTimestring dt = .error e) : e = .overflowError := by
  unfold toIsoTimestring at h
  cases hdt : dt.asUtc with
  | error e' => rw [hdt] at h; cases h; exact dt.asUtc_error hdt
  | ok dt' => rw [hdt] at h; cases h

theorem toCommaTimestring_error (h : toCommaTimestring dt = .error e) : e = .overflowError := by
  unfold toCommaTimestring at h
  cases hdt : dt.asUtc with
  | error e' => rw [hdt] at h; cases h; exact dt.asUtc_error hdt
  | ok dt' => rw [hdt] at h; cases h

/-- An exception of the language, and none that a transport raises. -/
def Exn.Plain (e : Exn) : Prop := e.isSeedLinkError = false ∧ e ≠ .cancelledError

theorem DateTime.make_error {year month day hour minute second : Int}
    (h : make year month day hour minute second = .error e) : e.Plain := by
  unfold make at h
  repeat (split at h; · cases h; exact ⟨rfl, nofun⟩)
  cases h

theorem parseTimestring_error [Unicode] [Iso8601] {t : Text} (h : parseTimestring t = .error e) :
    e.Plain := by
  unfold parseTimestring at h
  split at h
  · split at h
    · cases h; exact ⟨rfl, nofun⟩
    · split at h
      · exact DateTime.make_error h
      · cases h; exact ⟨rfl, nofun⟩
  · split at h
    · cases h; exact ⟨rfl, nofun⟩
    · rw [DateTime.asUtc_error h]; exact ⟨rfl, nofun⟩

end raises

end SeedLink
