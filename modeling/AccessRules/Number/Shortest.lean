import AccessRules.Number.Binary64

/-!
# The fewest digits that identify a number

`shortest m e` finds the decimal with the fewest digits that lies in the interval of reals rounding
to `m * 2 ^ e`; of two such decimals it takes the nearer one.  For a given number of digits only the
two decimals next to the value need testing, because an interval that holds any decimal of that
grid holds one of these two.

`Notation64` records how such digits are laid out, and `numberText` is the layout used throughout:
positional for decimal exponents from -4 up to 16, otherwise with a signed exponent of at least two
digits, and always with a point in positional form.
-/

namespace AccessRules.Binary64

/-- The interval of reals that round to `m * 2 ^ e`, as three numerators over one denominator:
lower end, value, upper end.  The ends belong to the interval when `m` is even. -/
structure Interval where
  low : Nat
  value : Nat
  high : Nat
  den : Nat
  closed : Bool

/-- The rounding interval of a positive number.  The gap below a power of two is half as wide. -/
def interval (m : Nat) (e : Int) : Interval :=
  let narrow := m == leadingBit && e > minExponent
  let (a, b) := magnitude 1 e
  ⟨4 * m * a - (if narrow then a else 2 * a), 4 * m * a, 4 * m * a + 2 * a, 4 * b, m % 2 == 0⟩

/-- Whether `c * num / den` lies in the interval. -/
def Interval.holds (i : Interval) (c num den : Nat) : Bool :=
  let x := c * num * i.den
  if i.closed then i.low * den ≤ x && x ≤ i.high * den
  else i.low * den < x && x < i.high * den

/-- The decimal of unit `10 ^ unit` nearest to the value among those that lie in the interval. -/
def Interval.onGrid? (i : Interval) (unit : Int) : Option Nat :=
  let (num, den) := if unit ≥ 0 then (Nat.pow 10 unit.toNat, 1) else (1, Nat.pow 10 (-unit).toNat)
  let c := i.value * den / (i.den * num)
  let below := i.holds c num den && c != 0
  let above := i.holds (c + 1) num den
  if below && above then
    -- the nearer of the two; a tie to the even one
    let twice := 2 * i.value * den
    let middle := (2 * c + 1) * (i.den * num)
    if twice < middle then some c
    else if middle < twice then some (c + 1)
    else some (if c % 2 = 0 then c else c + 1)
  else if below then some c
  else if above then some (c + 1)
  else none

/-- The least `k` with `a / b < 10 ^ k`, searched from a guess below it. -/
def decimalScale (a b : Nat) : Nat → Int → Int
  | 0, k => k
  | fuel + 1, k =>
    let fits := if k ≥ 0 then a < b * Nat.pow 10 k.toNat else a * Nat.pow 10 (-k).toNat < b
    if fits then k else decimalScale a b fuel (k + 1)

/-- Tries grids of 1, 2, … digits below `10 ^ k`; the fuel bounds the number of digits. -/
def searchGrids (i : Interval) (k : Int) : Nat → Nat → Nat × Int
  | 0, _ => (i.value / i.den, 0)
  | fuel + 1, digits =>
    match i.onGrid? (k - digits) with
    | some c => (c, k - digits)
    | none => searchGrids i k fuel (digits + 1)

/-- Drops trailing zeros of the digits into the power. -/
def stripZeros : Nat → Nat → Int → Nat × Int
  | 0, c, p => (c, p)
  | fuel + 1, c, p => if c != 0 && c % 10 == 0 then stripZeros fuel (c / 10) (p + 1) else (c, p)

/-- Digits and power of ten of the shortest decimal that identifies `m * 2 ^ e`, for `m > 0`. -/
def shortest (m : Nat) (e : Int) : Nat × Int :=
  let (a, b) := magnitude m e
  let guess : Int := ((Nat.log2 a : Int) - Nat.log2 b - 1) * 30103 / 100000 - 1
  let k := decimalScale a b 8 guess
  let (c, p) := searchGrids (interval m e) k 17 1
  stripZeros 20 c p

/-- How the digits of a number are laid out. -/
structure Layout where
  /-- positional notation is used for a decimal exponent of at least this -/
  leastPositional : Int
  /-- and below this -/
  firstScientific : Int
  /-- the fewest digits of a written exponent -/
  exponentDigits : Nat

/-- Numbers are written positionally from 0.0001 up to 10^16, and otherwise with a signed exponent
of at least two digits. -/
def numberText : Layout := ⟨-4, 16, 2⟩

/-- `n` padded with zeros on the left to `width` digits. -/
def padded (width n : Nat) : String :=
  let digits := toString n
  String.ofList (List.replicate (width - digits.length) '0') ++ digits

/-- The text of `digits * 10 ^ power` in a layout. -/
def Layout.render (l : Layout) (digits : Nat) (power : Int) : String :=
  let cs := (toString digits).toList
  let n : Int := cs.length
  let exponent := n - 1 + power
  if l.leastPositional ≤ exponent && exponent < l.firstScientific then
    if power ≥ 0 then
      String.ofList (cs ++ List.replicate power.toNat '0') ++ ".0"
    else if exponent < 0 then
      "0." ++ String.ofList (List.replicate (-exponent - 1).toNat '0' ++ cs)
    else
      String.ofList (cs.take (exponent.toNat + 1)) ++ "." ++
        String.ofList (cs.drop (exponent.toNat + 1))
  else
    let head := String.ofList (cs.take 1)
    let tail := cs.drop 1
    let mantissa := if tail.isEmpty then head else head ++ "." ++ String.ofList tail
    mantissa ++ (if exponent < 0 then "e-" else "e+") ++ padded l.exponentDigits exponent.natAbs

/-- The text of a number: the fewest digits that read back, or `nan`, `inf`, `-inf`. -/
def text : Binary64 → String
  | .nan => "nan"
  | .infinite neg => if neg then "-inf" else "inf"
  | .finite neg m e =>
    let sign := if neg then "-" else ""
    if m = 0 then sign ++ "0.0"
    else
      let (digits, power) := shortest m e
      sign ++ numberText.render digits power

end AccessRules.Binary64
