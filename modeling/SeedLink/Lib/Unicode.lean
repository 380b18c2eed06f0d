import SeedLink.Lib.Text

/-!
# Unicode digits and decimal integers

The Unicode database is a parameter, fixed on ASCII; on it rest `str.isalnum()` and the reading of
decimal integers. The decimal conversions refuse more than 4300 digits, in both directions.
-/

class Unicode where
  /-- `str.isalnum()` of one character. -/
  isAlnum : Char → Bool
  /-- The value of a decimal digit. -/
  digit? : Char → Option Nat
  isAlnum_ascii : ∀ c, c.toNat < 128 → isAlnum c = c.isAlphanum
  digit?_ascii : ∀ c, c.toNat < 128 → digit? c = if c.isDigit then some (c.toNat - 48) else none

namespace Text

def maxStrDigits : Nat := 4300

/-- `str(n)`, `none` for `ValueError`. -/
def strInt (n : Int) : Option Text :=
  if (numeral 10 n.natAbs).length ≤ maxStrDigits then some (intNumeral 10 n) else none

/-- The characters `int()` takes for white space: of ASCII it has those of C's `isspace` only. -/
def isIntSpace (c : Char) : Bool := isSpace c && !(28 ≤ c.toNat && c.toNat ≤ 31)

/-- What `int()` leaves of the white space around a literal. -/
def stripInt (s : Text) : Text := ((s.dropWhile isIntSpace).reverse.dropWhile isIntSpace).reverse

variable [Unicode]

/-- The digits of a literal, underscores between them allowed one at a time: their value and
number. -/
def decimalDigits (value count : Nat) (underscore : Bool) : Text → Option (Nat × Nat)
  | [] => if underscore then none else some (value, count)
  | c :: rest =>
    if c = '_' then if underscore then none else decimalDigits value count true rest
    else
      match Unicode.digit? c with
      | some d => decimalDigits (value * 10 + d) (count + 1) false rest
      | none => none

/-- `int(s)`, `none` for `ValueError`. -/
def intBase10 (s : Text) : Option Int :=
  let (negative, s) :=
    match stripInt s with
    | '-' :: rest => (true, rest)
    | '+' :: rest => (false, rest)
    | s => (false, s)
  match decimalDigits 0 0 true s with
  | none => none
  | some (value, count) =>
    if count ≤ maxStrDigits then some (if negative then -(value : Int) else value) else none

end Text
