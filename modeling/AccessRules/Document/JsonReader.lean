import AccessRules.Document.Value
import AccessRules.Number.Decimal

/-!
# Documents read from JSON

A reader of JSON texts that says what it missed and where.  A fault names the position of the
character at which it was noticed, and its message gives that position as line, column and offset.
A number without fraction and exponent is an integer of any size; one with either is a
floating-point number.  Of two entries with one key the later value stands, in the earlier's place.
-/

namespace AccessRules.Json

open Text

/-- What a JSON text lacks. -/
inductive Fault where
  | noValue
  | noName
  | noColon
  | noComma
  | extraData
  | openString
  | controlCharacter
  | badEscape
  | badUnitEscape
  deriving DecidableEq, Repr

/-- A fault and the offset at which it was noticed. -/
structure FaultAt where
  fault : Fault
  offset : Nat
  deriving DecidableEq, Repr

def Fault.message : Fault → String
  | .noValue => "Expecting value"
  | .noName => "Expecting property name enclosed in double quotes"
  | .noColon => "Expecting ':' delimiter"
  | .noComma => "Expecting ',' delimiter"
  | .extraData => "Extra data"
  | .openString => "Unterminated string starting at"
  | .controlCharacter => "Invalid control character at"
  | .badEscape => "Invalid \\escape"
  | .badUnitEscape => "Invalid \\uXXXX escape"

/-- The message of a fault in a text: lines and columns count from one. -/
def FaultAt.message (input : List Char) (f : FaultAt) : String :=
  let before := input.take f.offset
  let line := before.count '\n' + 1
  let column := (before.reverse.takeWhile (· != '\n')).length + 1
  f.fault.message ++ ": line " ++ toString line ++ " column " ++ toString column ++
    " (char " ++ toString f.offset ++ ")"

/-- The rest of an input and its offset. -/
structure Rest where
  offset : Nat
  chars : List Char
  deriving Repr

def Rest.isBlankChar (c : Char) : Bool := c = ' ' || c = '\t' || c = '\n' || c = '\r'

/-- The rest after any blanks. -/
def Rest.skipBlanks (r : Rest) : Rest :=
  let blanks := r.chars.takeWhile isBlankChar
  ⟨r.offset + blanks.length, r.chars.dropWhile isBlankChar⟩

/-- The rest after `n` characters. -/
def Rest.advance (r : Rest) (n : Nat) : Rest := ⟨r.offset + n, r.chars.drop n⟩

/-- The character of a short escape. -/
def shortEscape? : Char → Option Char
  | '"' => some '"'
  | '\\' => some '\\'
  | '/' => some '/'
  | 'b' => some '\x08'
  | 'f' => some '\x0c'
  | 'n' => some '\n'
  | 'r' => some '\r'
  | 't' => some '\t'
  | _ => none

/-- Units of 16 bits as characters: pairs are joined, and half a pair becomes the replacement
character. -/
def joinUnits : List Nat → List Char
  | hi :: lo :: rest =>
    if 0xd800 ≤ hi && hi < 0xdc00 && 0xdc00 ≤ lo && lo < 0xe000 then
      Char.ofNat (0x10000 + (hi - 0xd800) * 0x400 + (lo - 0xdc00)) :: joinUnits rest
    else unit hi :: joinUnits (lo :: rest)
  | [n] => [unit n]
  | [] => []
where
  unit (n : Nat) : Char := if 0xd800 ≤ n && n < 0xe000 then '\ufffd' else Char.ofNat n

/-- The characters of a string up to its closing quote, as units, and the offset after the quote.
`start` is the offset of the opening quote and `at` that of the next character. -/
def readUnits (start : Nat) : Nat → List Char → Except FaultAt (List Nat × Rest)
  | _, [] => .error ⟨.openString, start⟩
  | pos, '"' :: rest => .ok ([], ⟨pos + 1, rest⟩)
  | _, '\\' :: [] => .error ⟨.openString, start⟩
  | pos, '\\' :: 'u' :: a :: b :: c :: d :: rest =>
    match hexValue? a, hexValue? b, hexValue? c, hexValue? d with
    | some a, some b, some c, some d =>
      if rest.isEmpty then .error ⟨.badUnitEscape, pos + 1⟩
      else do
        let (units, rest) ← readUnits start (pos + 6) rest
        .ok ((a * 4096 + b * 256 + c * 16 + d) :: units, rest)
    | _, _, _, _ => .error ⟨.badUnitEscape, pos + 1⟩
  | pos, '\\' :: 'u' :: _ => .error ⟨.badUnitEscape, pos + 1⟩
  | pos, '\\' :: c :: rest =>
    match shortEscape? c with
    | some c => do
      let (units, rest) ← readUnits start (pos + 2) rest
      .ok (c.toNat :: units, rest)
    | none => .error ⟨.badEscape, pos⟩
  | pos, c :: rest =>
    if c.toNat < 0x20 then .error ⟨.controlCharacter, pos⟩
    else do
      let (units, rest) ← readUnits start (pos + 1) rest
      .ok (c.toNat :: units, rest)

/-- A string whose opening quote is the first character. -/
def readString (r : Rest) : Except FaultAt (String × Rest) := do
  let (units, rest) ← readUnits r.offset (r.offset + 1) (r.chars.drop 1)
  .ok (String.ofList (joinUnits units), rest)

/-- The sign of a number: a minus or nothing. -/
def takeSign : List Char → Bool × List Char
  | '-' :: cs => (true, cs)
  | cs => (false, cs)

/-- The whole part of a number, without leading zeros. -/
def takeWhole (cs : List Char) : List Char × List Char :=
  match Decimal.takeDigits cs with
  | ('0' :: more, rest) => (['0'], more ++ rest)
  | (digits, rest) => (digits, rest)

/-- The fraction of a number, which needs digits. -/
def takeFraction : List Char → List Char × List Char
  | '.' :: cs =>
    let (digits, rest) := Decimal.takeDigits cs
    if digits.isEmpty then ([], '.' :: cs) else (digits, rest)
  | cs => ([], cs)

/-- A number at the start of the input. -/
def readNumber? (r : Rest) : Option (Value × Rest) :=
  let (negative, body) := takeSign r.chars
  let (whole, rest) := takeWhole body
  if whole.isEmpty then none
  else
    let (fraction, rest) := takeFraction rest
    let (exponent, rest) := Decimal.takeExponent rest
    let used := r.chars.length - rest.length
    let value : Value :=
      if fraction.isEmpty && exponent.isNone then .int (Decimal.signed negative whole)
      else .float (Decimal.ofParts negative whole fraction (exponent.getD 0)).toBinary64
    some (value, ⟨r.offset + used, rest⟩)

/-- The words JSON texts may hold in place of a value. -/
def words : List (String × Value) :=
  [("null", .null), ("true", .bool true), ("false", .bool false), ("NaN", .float .nan),
    ("Infinity", .float (.infinite false)), ("-Infinity", .float (.infinite true))]

/-- A word at the start of the input. -/
def readWord? (r : Rest) : Option (Value × Rest) :=
  (words.find? fun w => w.1.toList.isPrefixOf r.chars).map fun w =>
    (w.2, r.advance w.1.length)

mutual

/-- The value that starts at the first character. -/
def readValue : Nat → Rest → Except FaultAt (Value × Rest)
  | 0, r => .error ⟨.noValue, r.offset⟩
  | fuel + 1, r =>
    match r.chars with
    | '"' :: _ => do
      let (s, rest) ← readString r
      .ok (.text s, rest)
    | '{' :: _ =>
      let inner := (r.advance 1).skipBlanks
      match inner.chars with
      | '}' :: _ => .ok (.map [], inner.advance 1)
      | _ => readMembers fuel [] inner
    | '[' :: _ =>
      let inner := (r.advance 1).skipBlanks
      match inner.chars with
      | ']' :: _ => .ok (.list [], inner.advance 1)
      | _ => readItems fuel [] inner
    | _ =>
      match readWord? r with
      | some found => .ok found
      | none =>
        match readNumber? r with
        | some found => .ok found
        | none => .error ⟨.noValue, r.offset⟩

/-- The items of a list from the first of the rest, those before it in reverse. -/
def readItems : Nat → List Value → Rest → Except FaultAt (Value × Rest)
  | 0, _, r => .error ⟨.noValue, r.offset⟩
  | fuel + 1, done, r => do
    let (v, rest) ← readValue fuel r
    let rest := rest.skipBlanks
    match rest.chars with
    | ']' :: _ => .ok (.list (v :: done).reverse, rest.advance 1)
    | ',' :: _ => readItems fuel (v :: done) (rest.advance 1).skipBlanks
    | _ => .error ⟨.noComma, rest.offset⟩

/-- The members of an object from the first of the rest, after those already read. -/
def readMembers : Nat → List (Scalar × Value) → Rest → Except FaultAt (Value × Rest)
  | 0, _, r => .error ⟨.noName, r.offset⟩
  | fuel + 1, done, r =>
    match r.chars with
    | '"' :: _ => do
      let (key, rest) ← readString r
      let rest := rest.skipBlanks
      match rest.chars with
      | ':' :: _ =>
        let (v, rest) ← readValue fuel (rest.advance 1).skipBlanks
        let done := Value.put (.text key) v done
        let rest := rest.skipBlanks
        match rest.chars with
        | '}' :: _ => .ok (.map done, rest.advance 1)
        | ',' :: _ => readMembers fuel done (rest.advance 1).skipBlanks
        | _ => .error ⟨.noComma, rest.offset⟩
      | _ => .error ⟨.noColon, rest.offset⟩
    | _ => .error ⟨.noName, r.offset⟩

end

/-- The document a JSON text holds; nothing but blanks may stand around it. -/
def parse (input : List Char) : Except FaultAt Value := do
  let (v, rest) ← readValue (2 * input.length + 2) (Rest.mk 0 input).skipBlanks
  let rest := rest.skipBlanks
  if rest.chars.isEmpty then .ok v else .error ⟨.extraData, rest.offset⟩

/-- The document a JSON text holds, if it is one. -/
def parse? (s : String) : Option Value := (parse s.toList).toOption

end AccessRules.Json
