import AccessRules.Calendar.Moment
import AccessRules.Number.Decimal

/-!
# Dates and times read from text

The pieces formats of date and time are put together from: each takes its characters from the start
of the input and leaves the rest.  `Fields` are the numbers of a date-time before the calendar has
been asked whether it has such a date.

Three whole formats are built here:

- `Moment.ofIso?` reads what `Moment.iso` writes;
- `readLenient?` reads the date-times a person or another program may put into a document;
- `epochMoment?` takes a count of seconds, or of milliseconds when it is large.
-/

namespace AccessRules.Calendar

open Text

/-- Exactly `w` digits at the start of the input. -/
def takeFixed? (w : Nat) (cs : List Char) : Option (Nat × List Char) :=
  match value? (cs.take w) with
  | some n => if (cs.take w).length = w then some (n, cs.drop w) else none
  | none => none

/-- The character `c` at the start of the input. -/
def takeChar? (c : Char) : List Char → Option (List Char)
  | d :: rest => if d = c then some rest else none
  | [] => none

/-- The microseconds a fraction's digits stand for; digits beyond the sixth are cut off. -/
def fractionMicros (digits : List Char) : Nat :=
  digitsFrom 0 ((digits ++ List.replicate 6 '0').take 6)

/-- What a date-time text says: a date, the microseconds since midnight and perhaps an offset in
seconds. -/
structure Fields where
  year : Nat
  month : Nat
  day : Nat
  micros : Nat
  offset : Option Int
  deriving DecidableEq, Repr

namespace Fields

/-- Whether the month exists and has the day.  Year 0 is treated as a leap year. -/
def dateExists (f : Fields) : Bool := 1 ≤ f.day && f.day ≤ daysInMonth f.year f.month

/-- The moment, if the calendar has the date. -/
def moment? (f : Fields) : Option Moment :=
  (Date.ofParts? f.year f.month f.day).map fun d => ⟨d.dayNumber * microsPerDay + f.micros, f.offset⟩

end Fields

/-- `YYYY-MM-DD` at the start of the input. -/
def takeDate? (cs : List Char) : Option ((Nat × Nat × Nat) × List Char) := do
  let (year, cs) ← takeFixed? 4 cs
  let cs ← takeChar? '-' cs
  let (month, cs) ← takeFixed? 2 cs
  let cs ← takeChar? '-' cs
  let (day, cs) ← takeFixed? 2 cs
  some ((year, month, day), cs)

/-- A fraction of a second, one of the marks and at least one digit, in microseconds; 0 when there
is none. -/
def takeFraction? (marks : List Char) (cs : List Char) : Option (Nat × List Char) :=
  match cs with
  | c :: rest =>
    if marks.contains c then
      let (digits, rest) := Decimal.takeDigits rest
      if digits.isEmpty then none else some (fractionMicros digits, rest)
    else some (0, cs)
  | [] => some (0, cs)

/-- Whether a clock can show these hours, minutes and seconds. -/
def clockShows (hours minutes seconds : Nat) : Bool := hours < 24 && minutes < 60 && seconds < 60

/-- The microseconds since midnight of a time of day. -/
def clockMicros (hours minutes seconds micros : Nat) : Nat :=
  ((hours * 60 + minutes) * 60 + seconds) * 1000000 + micros

/-- `HH:MM:SS` and a fraction at the start of the input, in microseconds since midnight. -/
def takeTime? (marks : List Char) (cs : List Char) : Option (Nat × List Char) := do
  let (hours, cs) ← takeFixed? 2 cs
  let cs ← takeChar? ':' cs
  let (minutes, cs) ← takeFixed? 2 cs
  let cs ← takeChar? ':' cs
  let (seconds, cs) ← takeFixed? 2 cs
  let (micros, cs) ← takeFraction? marks cs
  if clockShows hours minutes seconds then
    some (clockMicros hours minutes seconds micros, cs)
  else none

/-- `HH:MM` or `HH:MM:SS` with a fraction at the start of the input. -/
def takeShortTime? (marks : List Char) (cs : List Char) : Option (Nat × List Char) :=
  match takeTime? marks cs with
  | some r => some r
  | none => do
    let (hours, cs) ← takeFixed? 2 cs
    let cs ← takeChar? ':' cs
    let (minutes, cs) ← takeFixed? 2 cs
    if clockShows hours minutes 0 && cs.head? != some ':' then
      some (clockMicros hours minutes 0 0, cs)
    else none

/-- Offsets lie strictly within a day. -/
def offsetFits (seconds : Nat) : Bool := seconds < 86400

/-- `HH:MM` and perhaps `:SS` of an offset, in seconds. -/
def takeOffsetClock? (cs : List Char) : Option (Nat × List Char) := do
  let (hours, cs) ← takeFixed? 2 cs
  let cs ← takeChar? ':' cs
  let (minutes, cs) ← takeFixed? 2 cs
  match takeChar? ':' cs with
  | none => some ((hours * 60 + minutes) * 60, cs)
  | some cs =>
    let (seconds, cs) ← takeFixed? 2 cs
    some ((hours * 60 + minutes) * 60 + seconds, cs)

/-- The offset that makes up the whole input: nothing, `Z`, or a sign and a clock. -/
def readOffset? : List Char → Option (Option Int)
  | [] => some none
  | ['Z'] => some (some 0)
  | sign :: cs => do
    let (seconds, rest) ← takeOffsetClock? cs
    if !rest.isEmpty || !offsetFits seconds then none
    else if sign = '+' then some (some seconds)
    else if sign = '-' then some (some (-(seconds : Int)))
    else none

/-- Reads `YYYY-MM-DDTHH:MM:SS[.f][offset]`, the forms `Moment.iso` writes, with `Z` for UTC. -/
def Moment.ofIsoChars? (cs : List Char) : Option Moment := do
  let ((year, month, day), cs) ← takeDate? cs
  let cs ← takeChar? 'T' cs
  let (micros, cs) ← takeTime? ['.'] cs
  let offset ← readOffset? cs
  (Fields.mk year month day micros offset).moment?

def Moment.ofIso? (s : String) : Option Moment := Moment.ofIsoChars? s.toList

/-- The offset of a lenient text: nothing, `Z` in either case, or a sign (also the minus of
typography), hours and minutes with or without a colon. -/
def readLenientOffset? : List Char → Option (Option Int)
  | [] => some none
  | ['Z'] => some (some 0)
  | ['z'] => some (some 0)
  | sign :: cs => do
    let (hours, cs) ← takeFixed? 2 cs
    let cs := (takeChar? ':' cs).getD cs
    let (minutes, cs) ← takeFixed? 2 cs
    let seconds := (hours * 60 + minutes) * 60
    if !cs.isEmpty || 60 ≤ minutes || !offsetFits seconds then none
    else if sign = '+' then some (some seconds)
    else if sign = '-' || sign = '\u2212' then some (some (-(seconds : Int)))
    else none

/-- A date with an optional time of day and offset.  The time may be set off by a `T`, a blank or an
underscore, may lack its seconds, and may have a fraction after a point or a comma. -/
def readLenient? (cs : List Char) : Option Fields := do
  let ((year, month, day), cs) ← takeDate? cs
  match cs with
  | [] =>
    let f : Fields := ⟨year, month, day, 0, none⟩
    if f.dateExists then some f else none
  | sep :: cs =>
    if sep = 'T' || sep = 't' || sep = ' ' || sep = '_' then
      let (micros, cs) ← takeShortTime? ['.', ','] cs
      let offset ← readLenientOffset? cs
      let f : Fields := ⟨year, month, day, micros, offset⟩
      if f.dateExists then some f else none
    else none

/-- The day number of the first of January 1970. -/
def epochDay : Int := 719162

/-- Counts above this are taken as milliseconds. -/
def largestSeconds : Int := 20000000000

/-- The moment, in UTC, a whole count and further microseconds after 1970 stand for: seconds, or
milliseconds when the count is large. -/
def epochMoment (count micros : Int) : Option Moment :=
  let counted := if largestSeconds < count.natAbs then count * 1000 else count * 1000000
  let t := epochDay * microsPerDay + counted + micros
  if inCalendar t then some (.utc t) else none

/-- The nearest integer to `a / b`, a half going away from zero. -/
def roundAway (a b : Nat) : Nat := (2 * a + b) / (2 * b)

/-- The moment a number stands for.  The count is its floor, and the size of its fraction is added
in microseconds. -/
def epochMoment? (x : Binary64) : Option Moment :=
  match x.ratio? with
  | some (a, b) => epochMoment (a / (b : Int)) (roundAway (a.natAbs % b * 1000000) b)
  | none => none

/-- A number written as a text where a moment is wanted: an optional sign and digits, and after a
point whatever decimal notation allows. -/
def readEpochText? (cs : List Char) : Option Binary64 :=
  let (negative, body) := Decimal.takeSign cs
  let (whole, rest) := Decimal.takeDigits body
  if whole.isEmpty then none
  else match rest with
    | [] => some (Decimal.ofParts negative whole [] 0).toBinary64
    | '.' :: rest =>
      let (fraction, rest) := Decimal.takeDigits rest
      let (exponent, rest) := Decimal.takeExponent rest
      if rest.isEmpty then
        some (Decimal.ofParts negative whole fraction (exponent.getD 0)).toBinary64
      else none
    | _ => none

example : (Moment.ofIso? "2024-02-29T23:59:59.5-03:30").map Moment.iso =
    some "2024-02-29T23:59:59.500000-03:30" := by decide +kernel

end AccessRules.Calendar
