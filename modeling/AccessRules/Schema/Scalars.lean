import AccessRules.Calendar.Reading
import AccessRules.Number.Decimal
import AccessRules.Schema.Check

/-!
# Reading scalars

Scalars are read leniently: a truth value may be written as one of a few words, a number as a text,
a moment as a count of seconds.  Each reader says exactly what it takes; everything else is an
issue of the kind named for the type.
-/

namespace AccessRules.Schema

open Calendar Text

/-- Bytes are read as the text they are in UTF-8; `p` is the problem of bytes that are none. -/
def ofBytes {α : Type} (read : String → Check α) (p : Problem) (bs : List UInt8) : Check α :=
  match String.fromUTF8? ⟨bs.toArray⟩ with
  | some s => read s
  | none => .issue p

/-- A text; bytes are taken as UTF-8. -/
def text : Reader String
  | .scalar (.text s) => .pass s
  | .scalar (.bytes bs) => ofBytes .pass .textNotUnicode bs
  | _ => .issue .notText

/-- The words for false. -/
def falseWords : List String := ["0", "off", "f", "false", "n", "no"]

/-- The words for true. -/
def trueWords : List String := ["1", "on", "t", "true", "y", "yes"]

/-- One of the words for a truth value, in any ASCII case. -/
def boolOfText (s : String) : Check Bool :=
  let word := String.ofList (s.toList.map Char.toLower)
  if falseWords.contains word then .pass false
  else if trueWords.contains word then .pass true
  else .issue .unreadableBool

/-- A truth value, 0 or 1 as a number, or one of the words for either. -/
def bool : Reader Bool
  | .scalar (.bool b) => .pass b
  | .scalar (.int n) =>
    if n = 0 then .pass false else if n = 1 then .pass true else .issue .unreadableBool
  | .scalar (.float x) =>
    if x.eqInt 0 then .pass false else if x.eqInt 1 then .pass true else .issue .notBool
  | .scalar (.text s) => boolOfText s
  | .scalar (.bytes bs) => ofBytes boolOfText .unreadableBool bs
  | _ => .issue .notBool

/-- A blank character of any script. -/
def isBlankChar (c : Char) : Bool :=
  let n := c.toNat
  (0x09 ≤ n && n ≤ 0x0d) || n = 0x20 || n = 0x85 || n = 0xa0 || n = 0x1680 ||
    (0x2000 ≤ n && n ≤ 0x200a) || n = 0x2028 || n = 0x2029 || n = 0x202f || n = 0x205f || n = 0x3000

/-- The characters without blanks at either end. -/
def trim (cs : List Char) : List Char :=
  ((cs.dropWhile isBlankChar).reverse.dropWhile isBlankChar).reverse

/-- The most bytes a text read as an integer may have. -/
def maxIntText : Nat := 4300

/-- An integer as a text: blanks around it, an optional sign, digits with single underscores
between them, and optionally a point followed by zeros. -/
def intOfText (s : String) : Check Int :=
  let cs := trim s.toList
  if maxIntText < (String.ofList cs).utf8ByteSize then .issue .oversizedInt
  else
    let (negative, body) := Decimal.takeSign cs
    let whole := body.takeWhile (· != '.')
    let fractionFits := match body.dropWhile (· != '.') with
      | [] => true
      | _ :: zeros => !zeros.isEmpty && zeros.all (· == '0')
    match Decimal.dropUnderscores? whole with
    | some digits =>
      if fractionFits && !digits.isEmpty && digits.all isDigit then
        .pass (Decimal.signed negative digits)
      else .issue .unreadableInt
    | none => .issue .unreadableInt

/-- The integers a floating-point number may be read as lie within 64 bits. -/
def fits64 (n : Int) : Bool := -wordLimit < n && n < wordLimit

/-- An integer, a truth value as 0 or 1, a floating-point number without fraction, or a text. -/
def int : Reader Int
  | .scalar (.int n) => .pass n
  | .scalar (.bool b) => .pass (Scalar.boolInt b)
  | .scalar (.float x) =>
    match x with
    | .finite .. =>
      match x.toInt? with
      | some n => if fits64 n then .pass n else .issue .oversizedInt
      | none => .issue .fractionalInt
    | _ => .issue .notFinite
  | .scalar (.text s) => intOfText s
  | .scalar (.bytes bs) => ofBytes intOfText .unreadableInt bs
  | _ => .issue .notInt

/-- An integer not below `least` and not above `greatest`. -/
def intWithin (least greatest : Int) : Reader Int := fun v =>
  ((int v).ensure (· ≤ greatest) .aboveGreatest).ensure (least ≤ ·) .belowLeast

/-- A text in decimal notation, blanks around it left out. -/
def floatOfText (s : String) : Check Binary64 :=
  match Decimal.readFloat? (trim s.toList) with
  | some x => .pass x
  | none => .issue .unreadableFloat

/-- A floating-point number, any other number that has one near it, or a text in decimal
notation. -/
def float : Reader Binary64
  | .scalar (.float x) => .pass x
  | .scalar (.int n) =>
    match Binary64.ofInt n with
    | .infinite _ => .issue .notFloat
    | x => .pass x
  | .scalar (.bool b) => .pass (.ofInt (Scalar.boolInt b))
  | .scalar (.text s) => floatOfText s
  | .scalar (.bytes bs) => ofBytes floatOfText .unreadableFloat bs
  | _ => .issue .notFloat

/-- A number greater than zero. -/
def positiveFloat : Reader Binary64 := fun v => (float v).ensure (·.isPositive) .notAbove

/-- The moment a count of seconds since 1970 stands for, or of milliseconds when it is large. -/
def momentOfNumber (x : Binary64) : Check Moment :=
  match epochMoment? x with
  | some m => .pass m
  | none => .issue .momentOutOfRange

/-- A moment as a text: a date, optionally with a time and an offset, or a number. -/
def momentOfText (s : String) : Check Moment :=
  match readLenient? s.toList with
  | some f =>
    match f.moment? with
    | some m => .pass m
    | none => .issue .momentOutOfRange
  | none =>
    match (readEpochText? s.toList).bind epochMoment? with
    | some m => .pass m
    | none => .issue .unreadableMoment

/-- A moment, a date as its midnight, a count of seconds since 1970, or a text. -/
def moment : Reader Moment
  | .scalar (.moment m) => .pass m
  | .scalar (.date d) => .pass ⟨d.dayNumber * microsPerDay, none⟩
  | .scalar (.int n) => momentOfNumber (.ofInt n)
  | .scalar (.float x) => momentOfNumber x
  | .scalar (.text s) => momentOfText s
  | .scalar (.bytes bs) => ofBytes momentOfText .unreadableMoment bs
  | _ => .issue .notMoment

end AccessRules.Schema
