import AccessRules.Calendar.Stored
import AccessRules.Fault
import AccessRules.Text.Decimals

/-!
# Stamps

The agent that enforces rules watches the resources rules start from and works anew whenever their
stamp changes.  A stamp is a moment in UTC to the second.

A stamp is stale when it is missing or unreadable, when the rule was stored less than `grace` before
it, or when it is older than `cooldown`; many rules share a resource, and the cooldown keeps one
pass from stamping it for each of them.
-/

namespace AccessRules.Stamp

open Calendar

/-- The annotation that holds the stamp of a resource. -/
def annotation : String := "acl-api.tsuru.io/last-updated"

/-- The stamp of an instant, the fraction of its second cut off. -/
def ofInstant (t : Instant) : String :=
  let m := Moment.utc t
  let date := m.date
  String.ofList ((toString date.year).toList ++
    '-' :: Text.fixed 2 date.month ++ '-' :: Text.fixed 2 date.day ++
    'T' :: Moment.clock (m.timeOfDay / 1000000) ++ ['Z'])

/-- The stamp of a moment, unless its instant lies outside the calendar. -/
def ofMoment? (m : Moment) : Option String := m.instant?.map ofInstant

/-- The length of an offset that is not `Z`. -/
def offsetLength : Nat := 6

/-- The length of a time of day with six digits of a fraction. -/
def exactTimeLength : Nat := 15

/-- What stands behind a time of day of some length.  If that has all six digits of a fraction, the
digits that follow are passed over, whatever script they are of. -/
def behindDigits (length : Nat) (cs : List Char) : List Char :=
  if exactTimeLength ≤ length then cs.dropWhile Text.isDecimal else cs

/-- Reads `YYYY-MM-DDTHH:MM:SS[.f](Z|+HH:MM|-HH:MM)`, a fraction being cut off after six digits.  All
digits are ASCII ones but those that are cut off. -/
def readChars? (cs : List Char) : Option Moment := do
  let ((year, month, day), cs) ← takeDate? cs
  let cs ← takeChar? 'T' cs
  let (micros, rest) ← takeTime? ['.'] cs
  let rest := behindDigits (cs.length - rest.length) rest
  if rest = ['Z'] || rest.length = offsetLength then
    let offset ← readOffset? rest
    (Fields.mk year month day micros offset).moment?
  else none

/-- The moment a stamp names. -/
def read? (s : String) : Option Moment := readChars? s.toList

/-- How long stamps stay stale after a rule was stored, and how long they stay fresh. -/
structure Windows where
  grace : Duration
  cooldown : Duration
  deriving DecidableEq, Repr

/-- One minute for both. -/
def Windows.standard : Windows := ⟨60 * microsPerSecond, 60 * microsPerSecond⟩

/-- Whether the stamp of a resource has to be renewed for a rule stored at `created`.  A date that
would leave the calendar is a failure. -/
def isStale (w : Windows) (created : Moment) (stamp : Option String) (now : Moment) :
    Except Failure Bool :=
  match (stamp.filter (!·.isEmpty)).bind read? with
  | none => .ok true
  | some last =>
    match created.shift? w.grace with
    | none => .error .dateOutOfRange
    | some settled =>
      if last.instant < settled.instant then .ok true
      else match last.shift? w.cooldown with
        | none => .error .dateOutOfRange
        | some renewable => .ok (renewable.instant < now.instant)

end AccessRules.Stamp
