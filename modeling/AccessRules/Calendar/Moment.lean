import AccessRules.Calendar.Date
import AccessRules.Text.Digits

/-!
# Points in time

All arithmetic on times is done on one count of microseconds.

- An `Instant` counts from the start of year 1 in UTC; the calendar holds those below `endOfTime`.
- A `Duration` is a signed count, at most `maxDays` days either way.
- A `Moment` is a wall-clock reading together with the offset of its clock from UTC, or without
  one.  Two moments are compared by their instants; adding a duration moves the reading and keeps
  the offset, and fails where the reading would leave the calendar.

`Moment.iso` writes `YYYY-MM-DDTHH:MM:SS[.ffffff][+HH:MM[:SS]]`, with a fraction only when there
is one and the offset as the moment has it.
-/

namespace AccessRules.Calendar

open Text

/-- Microseconds since the first moment of year 1, in UTC. -/
abbrev Instant := Int

/-- A signed length of time in microseconds. -/
abbrev Duration := Int

def microsPerSecond : Int := 1000000

def microsPerDay : Int := 86400 * microsPerSecond

/-- The first microsecond after the last one of the calendar. -/
def endOfTime : Int := dayCount * microsPerDay

/-- Whether a count of microseconds since year 1 lies within the calendar. -/
def inCalendar (t : Int) : Bool := 0 ≤ t && t < endOfTime

/-- The largest number of days a duration may have, in either direction. -/
def maxDays : Int := 999999999

/-- Whether a duration's whole days stay within `maxDays`. -/
def Duration.inRange (d : Duration) : Bool :=
  -maxDays ≤ d / microsPerDay && d / microsPerDay ≤ maxDays

/-- A wall-clock reading, in microseconds since the start of year 1 on that clock, and how far
the clock runs ahead of UTC, in seconds, when that is known. -/
structure Moment where
  reading : Int
  offset : Option Int
  deriving DecidableEq, Repr

namespace Moment

/-- The moment a UTC clock shows at an instant. -/
def utc (t : Instant) : Moment := ⟨t, some 0⟩

/-- The instant of a moment; a clock of unknown offset is read as UTC.  It may lie outside the
calendar. -/
def instant (m : Moment) : Instant :=
  m.reading - m.offset.getD 0 * microsPerSecond

/-- The instant, unless it falls outside the calendar. -/
def instant? (m : Moment) : Option Instant :=
  if inCalendar m.instant then some m.instant else none

/-- A clock of unknown offset is taken to show UTC. -/
def assumeUtc (m : Moment) : Moment :=
  match m.offset with
  | none => ⟨m.reading, some 0⟩
  | some _ => m

/-- The reading moved by `d`, unless it leaves the calendar. -/
def shift? (m : Moment) (d : Duration) : Option Moment :=
  if inCalendar (m.reading + d) then some ⟨m.reading + d, m.offset⟩ else none

/-- The date shown by the wall clock. -/
def date (m : Moment) : Date := Date.ofDayNumber (m.reading / microsPerDay).toNat

/-- The microseconds since the wall clock's midnight. -/
def timeOfDay (m : Moment) : Nat := (m.reading % microsPerDay).toNat

/-- Hours, minutes and seconds of a number of seconds. -/
def clock (seconds : Nat) : List Char :=
  fixed 2 (seconds / 3600) ++ ':' :: fixed 2 (seconds / 60 % 60) ++ ':' :: fixed 2 (seconds % 60)

/-- A date as year, month and day, the year with four digits. -/
def dateText (d : Date) : List Char :=
  fixed 4 d.year ++ '-' :: fixed 2 d.month ++ '-' :: fixed 2 d.day

/-- The fraction of a second, six digits after a point, or nothing for a whole second. -/
def fractionText (micros : Nat) : List Char :=
  if micros = 0 then [] else '.' :: fixed 6 micros

/-- An offset as a sign, hours and minutes, and seconds only when it has any. -/
def offsetText (offset : Int) : List Char :=
  let size := offset.natAbs
  (if offset < 0 then '-' else '+') :: fixed 2 (size / 3600) ++ ':' :: fixed 2 (size / 60 % 60) ++
    (if size % 60 = 0 then [] else ':' :: fixed 2 (size % 60))

/-- The characters of `iso`. -/
def isoChars (m : Moment) : List Char :=
  let seconds := m.timeOfDay / 1000000
  dateText m.date ++ 'T' :: clock seconds ++ fractionText (m.timeOfDay % 1000000) ++
    (match m.offset with
      | none => []
      | some o => offsetText o)

/-- The moment as text: date, `T`, time, fraction if any, offset if known. -/
def iso (m : Moment) : String := String.ofList m.isoChars

example : (Moment.mk (19 * microsPerSecond) (some (-5400))).iso = "0001-01-01T00:00:19-01:30" := by
  decide +kernel

end Moment

end AccessRules.Calendar
