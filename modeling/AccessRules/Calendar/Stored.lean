import AccessRules.Calendar.Reading

/-!
# Stored times

Times are stored as text in UTC.  The text of an instant is read back as that instant, and
texts sort as their instants do, because all of them have the same digits in the same places and
a fraction only ever makes a text greater.
-/

namespace AccessRules.Calendar

/-- The stored text of an instant. -/
def storedText (t : Instant) : String := (Moment.utc t).iso

/-- The stored text of a moment, unless its instant lies outside the calendar. -/
def Moment.stored? (m : Moment) : Option String := m.instant?.map storedText

end AccessRules.Calendar
