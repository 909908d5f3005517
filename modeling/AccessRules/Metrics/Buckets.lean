import AccessRules.Fault
import AccessRules.Number.Binary64

/-!
# Bounds of histogram buckets

The bounds grow by a constant factor.  As long as start and factor are whole numbers so are the
bounds; otherwise each is one product of floating-point numbers, the power having been rounded
before.
-/

namespace AccessRules.Metrics

/-- A bound, or the factor between two. -/
inductive Bound where
  | whole (n : Int)
  | real (x : Binary64)
  deriving DecidableEq, Repr

namespace Bound

/-- A number out of the range of floating-point numbers. -/
def tooLarge : Failure := .outOfRange "int too large to convert to float"

/-- A bound as a floating-point number. -/
def toReal : Bound → Except Failure Binary64
  | .real x => .ok x
  | .whole n =>
    match Binary64.ofInt n with
    | .infinite _ => .error tooLarge
    | x => .ok x

/-- The product of two bounds. -/
def mul (a b : Bound) : Except Failure Bound :=
  match a, b with
  | .whole m, .whole n => .ok (.whole (m * n))
  | a, b => do .ok (.real ((← a.toReal).mul (← b.toReal)))

/-- A power.  A finite number must not have an infinite power. -/
def pow (a : Bound) (n : Nat) : Except Failure Bound :=
  match a with
  | .whole m => .ok (.whole (Int.pow m n))
  | .real x@(.finite ..) =>
    match x.pow n with
    | .infinite _ => .error (.outOfRange "Numerical result out of range")
    | y => .ok (.real y)
  | .real x => .ok (.real (x.pow n))

end Bound

/-- `count` bounds from `start` on, each `factor` times the one before. -/
def buckets (start factor : Bound) (count : Nat) : Except Failure (List Bound) :=
  (List.range count).mapM fun i => do start.mul (← factor.pow i)

end AccessRules.Metrics
