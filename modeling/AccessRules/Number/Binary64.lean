/-!
# Binary floating-point numbers of 64 bits, held exactly

A `Binary64` is not-a-number, an infinity, or a sign, a significand below 2^53 and a power of two.
Nothing here uses machine floating point: a result is first formed as an exact quotient of natural
numbers and then brought to the nearest representable number by `ofRatio`, a tie going to the even
significand.  Every operation is therefore a plain function that can be computed in a proof.

The finite numbers are kept in one form: the significand has all 53 bits unless the exponent is
already the least one, `minExponent`.
-/

namespace AccessRules

/-- A floating-point number: `finite neg m e` stands for `± m * 2 ^ e`. -/
inductive Binary64 where
  | nan
  | infinite (negative : Bool)
  | finite (negative : Bool) (significand : Nat) (exponent : Int)
  deriving DecidableEq, Repr

namespace Binary64

/-- The least exponent of a finite number. -/
def minExponent : Int := -1074

/-- The greatest exponent of a finite number. -/
def maxExponent : Int := 971

def zero (negative : Bool) : Binary64 := .finite negative 0 minExponent

/-- The least significand of 53 bits. -/
def leadingBit : Nat := 0x10000000000000

/-- `num / den * 2 ^ -e` as a quotient of natural numbers. -/
def scaled (num den : Nat) (e : Int) : Nat × Nat :=
  if e ≥ 0 then (num, den * Nat.pow 2 e.toNat) else (num * Nat.pow 2 (-e).toNat, den)

/-- The quotient rounded to the nearest whole number, a tie to the even one. -/
def roundEven (num den : Nat) : Nat :=
  let q := num / den
  let r := num % den
  if 2 * r < den then q
  else if den < 2 * r then q + 1
  else if q % 2 = 0 then q else q + 1

/-- The exponent at which `num / den` has 53 bits before the point, or the least exponent if that
is greater. -/
def exponentFor (num den : Nat) : Int :=
  let e : Int := (Nat.log2 num : Int) - Nat.log2 den - 52
  let (a, b) := scaled num den e
  let e := if a < b * leadingBit then e - 1 else e
  max e minExponent

/-- The representable number nearest to `± num / den`, for `den > 0`. -/
def ofRatio (negative : Bool) (num den : Nat) : Binary64 :=
  if num = 0 then zero negative
  else
    let e := exponentFor num den
    let (a, b) := scaled num den e
    let m := roundEven a b
    let (m, e) := if m = 2 * leadingBit then (leadingBit, e + 1) else (m, e)
    if e > maxExponent then .infinite negative else .finite negative m e

/-- The representable number nearest to an integer. -/
def ofInt (n : Int) : Binary64 := ofRatio (n < 0) n.natAbs 1

/-- The representable number nearest to `± digits * 10 ^ power`.  Powers far outside the range are
settled by size alone. -/
def ofDecimal (negative : Bool) (digits : Nat) (power : Int) : Binary64 :=
  if digits = 0 then zero negative
  else
    let top : Int := power + (Nat.log2 digits + 1)
    if power > 400 then .infinite negative
    else if top < -1200 then zero negative
    else if power ≥ 0 then ofRatio negative (digits * Nat.pow 10 power.toNat) 1
    else ofRatio negative digits (Nat.pow 10 (-power).toNat)

/-- The magnitude of a finite number as a quotient of natural numbers. -/
def magnitude (m : Nat) (e : Int) : Nat × Nat :=
  if e ≥ 0 then (m * Nat.pow 2 e.toNat, 1) else (m, Nat.pow 2 (-e).toNat)

/-- A finite number as a quotient of an integer by a positive natural number. -/
def ratio? : Binary64 → Option (Int × Nat)
  | .finite neg m e =>
    let (a, b) := magnitude m e
    some (if neg then -(a : Int) else a, b)
  | _ => none

/-- The integer a finite number equals, if it has no fraction. -/
def toInt? (x : Binary64) : Option Int :=
  match x.ratio? with
  | some (a, b) => if a % (b : Int) = 0 then some (a / b) else none
  | none => none

/-- The greatest integer not above a finite number. -/
def floor? (x : Binary64) : Option Int := x.ratio?.map fun (a, b) => a / (b : Int)

def isNan : Binary64 → Bool
  | .nan => true
  | _ => false

/-- Order of two numbers by value; `none` when either is not a number.  The two zeros are equal. -/
def compare? : Binary64 → Binary64 → Option Ordering
  | .nan, _ => none
  | _, .nan => none
  | .infinite a, .infinite b => some (Ord.compare (!a) (!b))
  | .infinite a, .finite .. => some (if a then .lt else .gt)
  | .finite .., .infinite b => some (if b then .gt else .lt)
  | x@(.finite ..), y@(.finite ..) =>
    match x.ratio?, y.ratio? with
    | some (a, b), some (c, d) => some (Ord.compare (a * d) (c * b))
    | _, _ => none

/-- Whether a number equals an integer exactly. -/
def eqInt (x : Binary64) (n : Int) : Bool := x.toInt? == some n

/-- Whether two numbers have the same value. -/
def same (x y : Binary64) : Bool := x.compare? y == some .eq

/-- The number is greater than zero. -/
def isPositive (x : Binary64) : Bool := x.compare? (zero false) == some .gt

/-- The product, rounded. -/
def mul : Binary64 → Binary64 → Binary64
  | .finite s m e, .finite t n f =>
    let (a, b) := magnitude m e
    let (c, d) := magnitude n f
    ofRatio (s != t) (a * c) (b * d)
  | .nan, _ => .nan
  | _, .nan => .nan
  | .infinite s, .infinite t => .infinite (s != t)
  | .infinite s, .finite t n _ => if n = 0 then .nan else .infinite (s != t)
  | .finite s m _, .infinite t => if m = 0 then .nan else .infinite (s != t)

/-- The sum, rounded.  A sum of zero is negative only if both numbers are. -/
def add : Binary64 → Binary64 → Binary64
  | .nan, _ => .nan
  | _, .nan => .nan
  | .infinite s, .infinite t => if s = t then .infinite s else .nan
  | .infinite s, .finite .. => .infinite s
  | .finite .., .infinite t => .infinite t
  | .finite s m e, .finite t n f =>
    let (a, b) := magnitude m e
    let (c, d) := magnitude n f
    let signed (neg : Bool) (k : Nat) : Int := if neg then -(k : Int) else k
    let sum := signed s (a * d) + signed t (c * b)
    if sum = 0 then zero (s && t) else ofRatio (sum < 0) sum.natAbs (b * d)

/-- The `n`-th power, rounded once. -/
def pow : Binary64 → Nat → Binary64
  | _, 0 => ofInt 1
  | .nan, _ => .nan
  | .infinite s, n => .infinite (s && n % 2 == 1)
  | .finite s m e, n =>
    let (a, b) := magnitude m e
    ofRatio (s && n % 2 == 1) (Nat.pow a n) (Nat.pow b n)

example : ofDecimal false 1 (-1) = .finite false 0x1999999999999a (-56) := by decide +kernel
example : ofRatio false 1 3 = .finite false 6004799503160661 (-54) := by decide +kernel
example : ofDecimal false 5 (-324) = .finite false 1 (-1074) := by decide +kernel
example : ofInt (2 * leadingBit + 1) = .finite false leadingBit 1 := by decide +kernel

end Binary64

end AccessRules
