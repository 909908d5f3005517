import AccessRules.Number.Binary64
import AccessRules.Text.Digits

/-!
# Decimal notation read back

`Decimal` is a number as decimal notation writes it: a sign, the digits without their point, and a
power of ten.  The readers here work on lists of characters and leave the rest of the input alone,
so each format can put its own grammar together from them.
-/

namespace AccessRules

open Text

/-- A number in decimal notation: `± digits * 10 ^ power`. -/
structure Decimal where
  negative : Bool
  digits : Nat
  power : Int
  deriving DecidableEq, Repr

namespace Decimal

/-- The floating-point number nearest to a decimal. -/
def toBinary64 (d : Decimal) : Binary64 := Binary64.ofDecimal d.negative d.digits d.power

/-- The digits at the start of the input, and the rest. -/
def takeDigits (cs : List Char) : List Char × List Char := (cs.takeWhile isDigit, cs.dropWhile isDigit)

/-- An optional sign at the start of the input: whether it is a minus, and the rest. -/
def takeSign : List Char → Bool × List Char
  | '-' :: cs => (true, cs)
  | '+' :: cs => (false, cs)
  | cs => (false, cs)

/-- The value of a signed run of digits. -/
def signed (negative : Bool) (digits : List Char) : Int :=
  let n : Int := digitsFrom 0 digits
  if negative then -n else n

/-- An exponent at the start of the input: `e` or `E`, an optional sign and digits.  Anything else
is left in place. -/
def takeExponent (cs : List Char) : Option Int × List Char :=
  match cs with
  | c :: rest =>
    if c = 'e' || c = 'E' then
      let (negative, rest) := takeSign rest
      let (digits, rest) := takeDigits rest
      if digits.isEmpty then (none, cs) else (some (signed negative digits), rest)
    else (none, cs)
  | [] => (none, cs)

/-- The number whose whole part, fraction and exponent were read. -/
def ofParts (negative : Bool) (whole fraction : List Char) (exponent : Int) : Decimal :=
  ⟨negative, digitsFrom 0 (whole ++ fraction), exponent - fraction.length⟩

/-- Whether the underscores of a text all stand between two digits; they are then left out. -/
def dropUnderscores? : List Char → Option (List Char)
  | cs => go false cs
where
  /-- Walks the characters; `afterDigit` tells whether the one before was a digit. -/
  go (afterDigit : Bool) : List Char → Option (List Char)
    | [] => some []
    | '_' :: c :: rest =>
      if afterDigit && isDigit c then (go true rest).map (c :: ·) else none
    | '_' :: [] => none
    | c :: rest => (go (isDigit c) rest).map (c :: ·)

/-- A whole text as a floating-point number: an optional sign, digits with an optional point and
an optional exponent, digits being needed on one side of the point; single underscores may stand
between digits; or one of the words for infinity and not-a-number, in any case. -/
def readFloat? (cs : List Char) : Option Binary64 := do
  let (negative, body) := takeSign cs
  let word := String.ofList (body.map Char.toLower)
  if word = "inf" || word = "infinity" then return .infinite negative
  if word = "nan" then return .nan
  let body ← dropUnderscores? body
  let (whole, rest) := takeDigits body
  let (fraction, rest) := match rest with
    | '.' :: rest => takeDigits rest
    | rest => ([], rest)
  if whole.isEmpty && fraction.isEmpty then none
  let (exponent, rest) := takeExponent rest
  if rest.isEmpty then some (ofParts negative whole fraction (exponent.getD 0)).toBinary64
  else none

end Decimal

end AccessRules
