import AccessRules.Calendar.Duration
import AccessRules.Settings.Basic

/-!
# Settings as durations

Settings give times as numbers of seconds.  Those that are reckoned with have to be durations: a
positive number of seconds may be too long for one.
-/

namespace AccessRules.Settings

open Calendar

/-- A number of seconds as a duration. -/
def durationOf (seconds : Binary64) : Except Failure Duration :=
  match Duration.ofSeconds? seconds with
  | some d => .ok d
  | none => .error (.outOfRange "duration out of range")

/-- How long locks live without a sign of life, and how long a rule is left alone after it was dealt
with. -/
structure Times where
  lockExpire : Duration
  interval : Duration
  deriving DecidableEq, Repr

/-- The times of settings. -/
def times (s : Settings) : Except Failure Times := do
  .ok ⟨← durationOf s.passes.lockExpire, ← durationOf s.passes.interval⟩

end AccessRules.Settings
