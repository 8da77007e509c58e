import Yafu.Lib.GoString
import Mathlib.Order.Defs.LinearOrder

/-!
# Times and durations as Go prints them

A time is in nanoseconds since the zero `time.Time`, so none lies before the year 1; a duration is
in nanoseconds and fits 64 bits. Calendar dates are those of the proleptic Gregorian calendar, in
UTC.
-/

namespace Clock

/-- `time.Duration`. -/
abbrev Duration := ℤ

def second : Duration := 1000000000
def minute : Duration := 60 * second
def hour : Duration := 60 * minute

/-- The decimal digits of a number. -/
def decimal (n : ℕ) : GoString := toString n

/-- The decimal digits with zeros in front up to a width. -/
def padded (width n : ℕ) : GoString := (decimal n).leftpad width '0'.toUInt8

/-- `%d` of an integer. -/
def signed (n : ℤ) : GoString := toString n

/-! ## Durations -/

/-- `Time.Sub`, which stays within a 64 bit duration. -/
def sub (t u : ℕ) : Duration :=
  let d : ℤ := (t : ℤ) - u
  if d < -9223372036854775808 then -9223372036854775808
  else if 9223372036854775807 < d then 9223372036854775807
  else d

/-- The last `prec` digits of `v` in front of `acc`, without the zeros at the end. -/
def fracDigits : ℕ → ℕ → GoString → GoString
  | 0, _, acc => acc
  | prec + 1, v, acc =>
    fracDigits prec (v / 10)
      (if acc = [] ∧ v % 10 = 0 then [] else UInt8.ofNat ('0'.toNat + v % 10) :: acc)

/-- `fmtFrac`. -/
def frac (prec v : ℕ) : GoString :=
  match fracDigits prec v [] with
  | [] => []
  | ds => '.'.toUInt8 :: ds

/-- `Duration.String` of the absolute value. -/
def unsignedText (u : ℕ) : GoString :=
  if u = 0 then "0s"
  else if u < 1000 then decimal u ++ ("ns" : GoString)
  else if u < 1000000 then decimal (u / 1000) ++ frac 3 u ++ ("µs" : GoString)
  else if u < 1000000000 then decimal (u / 1000000) ++ frac 6 u ++ ("ms" : GoString)
  else
    let s := u / 1000000000
    (if s < 3600 then [] else decimal (s / 3600) ++ ("h" : GoString)) ++
      (if s < 60 then [] else decimal (s / 60 % 60) ++ ("m" : GoString)) ++
      decimal (s % 60) ++ frac 9 u ++ ("s" : GoString)

/-- `Duration.String`. -/
def Duration.text (d : Duration) : GoString :=
  if d < 0 then '-'.toUInt8 :: unsignedText d.natAbs else unsignedText d.natAbs

/-! ## Dates -/

/-- A date of the calendar. -/
structure Date where
  year : ℕ
  month : ℕ
  day : ℕ
deriving DecidableEq, Repr

/-- The lengths of the months. -/
def monthLengths (leap : Bool) : List ℕ :=
  [31, if leap then 29 else 28, 31, 30, 31, 30, 31, 31, 30, 31, 30, 31]

/-- The month, counted from `m` on, and the day in it, from the days before in these months. -/
def monthDay (m : ℕ) : List ℕ → ℕ → ℕ × ℕ
  | [], d => (m, d + 1)
  | n :: lengths, d => if d < n then (m, d + 1) else monthDay (m + 1) lengths (d - n)

/-- The date `days` days after the first of January of the year 1: cycles of 400 years, then of 100,
4 and 1, of which the last in a cycle may be a day longer. -/
def date (days : ℕ) : Date :=
  let n400 := days / 146097
  let d400 := days % 146097
  let n100 := min (d400 / 36524) 3
  let d100 := d400 - 36524 * n100
  let n4 := d100 / 1461
  let d4 := d100 % 1461
  let n1 := min (d4 / 365) 3
  let leap := n1 = 3 ∧ (n4 ≠ 24 ∨ n100 = 3)
  let md := monthDay 1 (monthLengths leap) (d4 - 365 * n1)
  ⟨400 * n400 + 100 * n100 + 4 * n4 + n1 + 1, md.1, md.2⟩

/-- The date and the time of day up to the second. -/
def dateTime (t : ℕ) : GoString :=
  let s := t / 1000000000
  let d := date (s / 86400)
  padded 4 d.year ++ ("-" : GoString) ++ padded 2 d.month ++ ("-" : GoString) ++ padded 2 d.day ++
    ("T" : GoString) ++ padded 2 (s % 86400 / 3600) ++ (":" : GoString) ++
    padded 2 (s % 3600 / 60) ++ (":" : GoString) ++ padded 2 (s % 60)

/-- `t.UTC().Format(time.RFC3339)`. -/
def rfc3339 (t : ℕ) : GoString := dateTime t ++ ("Z" : GoString)

/-- `t.UTC().Format(time.RFC3339Nano)`. -/
def rfc3339Nano (t : ℕ) : GoString := dateTime t ++ frac 9 t ++ ("Z" : GoString)

end Clock
