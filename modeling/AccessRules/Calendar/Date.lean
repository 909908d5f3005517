/-!
# Civil dates

Dates of the proleptic Gregorian calendar and the day numbers they stand for.  Day 0 is the first
of January of year 1, so a date of year `y` is the days of all earlier years, the days of the
earlier months, and the days of the month before it.

`Date.dayNumber` and `Date.ofDayNumber` go back and forth.  The year of a day number is estimated
from the mean length of a year and then corrected by at most one, which keeps the search free of
loops; the month is found by walking the twelve lengths.
-/

namespace AccessRules.Calendar

/-- A year divisible by four, but not by a hundred unless by four hundred. -/
def isLeap (year : Nat) : Bool :=
  year % 4 == 0 && (year % 100 != 0 || year % 400 == 0)

/-- The lengths of the twelve months. -/
def monthLengths (leap : Bool) : List Nat :=
  [31, if leap then 29 else 28, 31, 30, 31, 30, 31, 31, 30, 31, 30, 31]

/-- The number of days before the first of January of `year`, for `year ≥ 1`. -/
def daysBeforeYear (year : Nat) : Nat :=
  365 * (year - 1) + (year - 1) / 4 - (year - 1) / 100 + (year - 1) / 400

/-- A day of the calendar, months and days counted from one. -/
structure Date where
  year : Nat
  month : Nat
  day : Nat
  deriving DecidableEq, Repr

/-- How many days `month` has in `year`; 0 for a month that does not exist. -/
def daysInMonth (year month : Nat) : Nat :=
  if month = 0 then 0 else (monthLengths (isLeap year)).getD (month - 1) 0

/-- The last year a date may have. -/
def lastYear : Nat := 9999

/-- The number of days from the first day of year 1 to the last day of `lastYear`. -/
def dayCount : Nat := 3652059

namespace Date

/-- A date the calendar has: years 1 to 9999. -/
def isValid (d : Date) : Bool :=
  1 ≤ d.year && d.year ≤ lastYear && 1 ≤ d.month && d.month ≤ 12 &&
    1 ≤ d.day && d.day ≤ daysInMonth d.year d.month

/-- Days since the first of January of year 1. -/
def dayNumber (d : Date) : Nat :=
  daysBeforeYear d.year + ((monthLengths (isLeap d.year)).take (d.month - 1)).foldr (· + ·) 0 + (d.day - 1)

/-- The year holding day `n`. -/
def yearOf (n : Nat) : Nat :=
  let guess := n * 400 / 146097 + 1
  if n < daysBeforeYear guess then guess - 1
  else if daysBeforeYear (guess + 1) ≤ n then guess + 1
  else guess

/-- The month and the day of the month reached after `n` days, walking the months from `month`. -/
def splitMonths : List Nat → Nat → Nat → Nat × Nat
  | [], month, n => (month, n + 1)
  | len :: rest, month, n =>
    if n < len then (month, n + 1) else splitMonths rest (month + 1) (n - len)

/-- The date of a day number. -/
def ofDayNumber (n : Nat) : Date :=
  let year := yearOf n
  let (month, day) := splitMonths (monthLengths (isLeap year)) 1 (n - daysBeforeYear year)
  ⟨year, month, day⟩

/-- A date from its three numbers, if the calendar has it. -/
def ofParts? (year month day : Nat) : Option Date :=
  let d : Date := ⟨year, month, day⟩
  if d.isValid then some d else none

example : ofDayNumber (dayNumber ⟨2024, 2, 29⟩) = ⟨2024, 2, 29⟩ := by decide
example : dayNumber ⟨9999, 12, 31⟩ + 1 = dayCount := by decide
example : dayNumber ⟨1, 1, 1⟩ = 0 := by decide

end Date

end AccessRules.Calendar
