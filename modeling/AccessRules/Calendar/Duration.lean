import AccessRules.Calendar.Moment
import AccessRules.Number.Binary64

/-!
# Durations given in seconds

Durations are counted in microseconds and given as numbers of seconds.  A whole number of seconds is
taken as it is.  Of any other number the whole seconds are exact and the fraction is brought to the
nearest microsecond, a tie to the even one, after its product with a million has been rounded as
products of floating-point numbers are.
-/

namespace AccessRules.Calendar.Duration

/-- The nearest integer to `± a / b`, a tie to the even one. -/
def nearest (negative : Bool) (a b : Nat) : Int :=
  let n : Int := Binary64.roundEven a b
  if negative then -n else n

/-- The microseconds of a finite number of seconds. -/
def micros? (x : Binary64) : Option Int :=
  match x.ratio? with
  | none => none
  | some (a, b) =>
    let whole := a.natAbs / b
    let negative := decide (a < 0)
    let fraction := Binary64.ofRatio false (a.natAbs % b) b
    match (fraction.mul (.ofInt 1000000)).ratio? with
    | none => none
    | some (p, q) =>
      let seconds : Int := if negative then -(whole : Int) else whole
      some (seconds * microsPerSecond + nearest negative p.natAbs q)

/-- A whole number of seconds, unless it is too long for a duration. -/
def ofInt? (seconds : Int) : Option Duration :=
  let d : Duration := seconds * microsPerSecond
  if inRange d then some d else none

/-- A number of seconds, unless it is not finite or too long for a duration. -/
def ofSeconds? (x : Binary64) : Option Duration :=
  (micros? x).bind fun d => if inRange d then some d else none

/-- The number of seconds nearest to a duration. -/
def seconds (d : Duration) : Binary64 := Binary64.ofRatio (d < 0) d.natAbs 1000000

end AccessRules.Calendar.Duration
