import AccessRules.Document.JsonReader
import AccessRules.Text.Quoted

/-!
# Bodies

How a body is read as a document.  Its bytes are taken for UTF-8, unless the zeros among the first
of them tell of characters that are laid out in units of two or four bytes.

Two things are not read although they are JSON: an integer of too many digits, which is said of the
body, and lists and maps nested too deep, over which the reader breaks down.

Documents hold Unicode text.  An escape of half a surrogate pair stands for no character and is read
as the one that stands for characters that are lost.
-/

namespace AccessRules.Http

open Text

/-- Why there is no document in a body. -/
inductive Misread where
  /-- the body holds no document -/
  | invalid (message : String)
  /-- the reader broke down over the body, with a failure of some kind -/
  | breakdown (kind message : String)
  deriving DecidableEq, Repr

/-! ## Characters -/

/-- How characters are laid out in bytes. -/
structure Layout where
  /-- the bytes of a unit -/
  size : Nat
  /-- whether the most significant byte comes first -/
  bigEndian : Bool
  deriving DecidableEq, Repr

namespace Layout

/-- The layout that some bytes tell of, other than UTF-8. -/
def of? : List UInt8 → Option Layout
  | a :: b :: c :: d :: _ =>
    if a = 0 then some ⟨if b = 0 then 4 else 2, true⟩
    else if b = 0 then some ⟨if c = 0 && d = 0 then 4 else 2, false⟩
    else none
  | [a, b] => if a = 0 then some ⟨2, true⟩ else if b = 0 then some ⟨2, false⟩ else none
  | _ => none

def name (l : Layout) : String :=
  "utf-" ++ toString (8 * l.size) ++ (if l.bigEndian then "-be" else "-le")

/-- The number some bytes amount to. -/
def number (l : Layout) (bytes : List UInt8) : Nat :=
  (if l.bigEndian then bytes else bytes.reverse).foldl (fun n b => 256 * n + b.toNat) 0

/-- The units in some bytes, at most `fuel` of them, and the bytes that are too few for one. -/
def units (l : Layout) : Nat → List UInt8 → List Nat × List UInt8
  | 0, bytes => ([], bytes)
  | fuel + 1, bytes =>
    if bytes.length < l.size then ([], bytes)
    else
      let (units, rest) := l.units fuel (bytes.drop l.size)
      (l.number (bytes.take l.size) :: units, rest)

/-- What is said of bytes that stand for nothing, from an offset on. -/
def complaint (l : Layout) (bytes : List UInt8) (offset : Nat) (reason : String) : String :=
  "'" ++ l.name ++ "' codec can't decode byte" ++
    (match bytes with
      | [b] => " 0x" ++ String.ofList (fixedHex 2 b.toNat) ++ " in position " ++ toString offset
      | _ => "s in position " ++ toString offset ++ "-" ++ toString (offset + bytes.length - 1)) ++
    ": " ++ reason

/-- The characters in some bytes.  Units of two bytes are joined where they make a pair. -/
def read (l : Layout) (bytes : List UInt8) : Except String (List Char) :=
  let (units, rest) := l.units bytes.length bytes
  match units.findIdx? (0x110000 ≤ ·) with
  | some i =>
    let start := l.size * i
    .error (l.complaint ((bytes.drop start).take l.size) start
      "code point not in range(0x110000)")
  | none =>
    if rest.isEmpty then .ok (Json.joinUnits units)
    else .error (l.complaint rest (bytes.length - rest.length) "truncated data")

end Layout

/-- The characters of a body, without the mark some servers put in front of it. -/
def readChars (body : String) : Except String (List Char) :=
  let bytes := body.toList.flatMap String.utf8EncodeChar
  match Layout.of? bytes with
  | some layout => layout.read bytes
  | none => .ok (match body.toList with
    | '\uFEFF' :: cs => cs
    | cs => cs)

/-! ## Limits -/

/-- What goes beyond a limit of the reader. -/
inductive Excess where
  | digits (count : Nat)
  /-- a list or a map, by the character that opens it -/
  | nested (opening : Char)
  deriving DecidableEq, Repr

/-- The digits an integer may have. -/
def digitLimit : Nat := 4300

/-- How deep lists and maps may be nested: as deep as calls may, of which some are under way when a
body is read. -/
def nestingLimit : Nat := 970

def Excess.misread : Excess → Misread
  | .digits count =>
    .invalid ("Exceeds the limit (" ++ toString digitLimit ++
      " digits) for integer string conversion: value has " ++ toString count ++
      " digits; use sys.set_int_max_str_digits() to increase the limit")
  | .nested opening =>
    .breakdown "RecursionError" ("maximum recursion depth exceeded while decoding a JSON " ++
      (if opening = '[' then "array" else "object") ++ " from a unicode string")

/-- The digits of the integer at the start of the input; there are none of another number. -/
def integerDigits (r : Json.Rest) : Nat :=
  let (whole, rest) := Json.takeWhole (Json.takeSign r.chars).2
  let (fraction, rest) := Json.takeFraction rest
  if fraction.isEmpty && (Decimal.takeExponent rest).1.isNone then whole.length else 0

/-- The first excess in a text, and its offset, where `depth` lists and maps are open. -/
def firstExcess? : Nat → Nat → Json.Rest → Option (Nat × Excess)
  | 0, _, _ => none
  | fuel + 1, depth, r =>
    match r.chars with
    | [] => none
    | '"' :: _ =>
      match Json.readString r with
      | .ok (_, rest) => firstExcess? fuel depth rest
      | .error _ => none
    | c :: _ =>
      if c = '[' || c = '{' then
        if depth = nestingLimit then some (r.offset, .nested c)
        else firstExcess? fuel (depth + 1) (r.advance 1)
      else if c = ']' || c = '}' then firstExcess? fuel (depth - 1) (r.advance 1)
      else if digitLimit < integerDigits r then some (r.offset, .digits (integerDigits r))
      else
        match Json.readNumber? r with
        | some (_, rest) => firstExcess? fuel depth rest
        | none => firstExcess? fuel depth (r.advance 1)

/-! ## Documents -/

/-- The document in a text.  What is noticed first counts. -/
def readText (cs : List Char) : Except Misread Value :=
  match firstExcess? cs.length 0 ⟨0, cs⟩, Json.parse cs with
  | none, .ok v => .ok v
  | none, .error fault => .error (.invalid (fault.message cs))
  | some (_, excess), .ok _ => .error excess.misread
  | some (offset, excess), .error fault =>
    if fault.offset ≤ offset then .error (.invalid (fault.message cs)) else .error excess.misread

/-- The document in a body. -/
def readBody (body : String) : Except Misread Value :=
  match readChars body with
  | .ok cs => readText cs
  | .error message => .error (.invalid message)

end AccessRules.Http
