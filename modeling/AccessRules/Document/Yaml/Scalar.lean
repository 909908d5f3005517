import AccessRules.Calendar.Reading
import AccessRules.Document.Shown
import AccessRules.Document.Yaml.Token
import AccessRules.Text.Split

/-!
# The values of scalars

What a scalar stands for: `Kind.ofPlain` finds the kind of a plain scalar by its form, and
`Kind.value` the value of a text of a kind.  A text whose kind is given by a tag may lack that form,
and is then at fault.

Truth values are a few words; integers may be binary, octal, hexadecimal or groups to the base of
sixty, floating-point numbers need a point, and underscores may divide digits.
-/

namespace AccessRules.Yaml

open Calendar Text

/-- What a node may stand for. -/
inductive Kind where
  | null
  | bool
  | int
  | float
  | bytes
  | moment
  | text
  | list
  | map
  | orderedMap
  | pairs
  | set
  /-- the key under which other maps are taken over -/
  | merge
  /-- the sign for a default value -/
  | default
  deriving DecidableEq, Repr

/-- What the tags of the kinds start with. -/
def tagStart : String := "tag:yaml.org,2002:"

/-- The kinds by the rest of their tags. -/
def Kind.names : List (String × Kind) :=
  [("null", .null), ("bool", .bool), ("int", .int), ("float", .float), ("binary", .bytes),
    ("timestamp", .moment), ("str", .text), ("seq", .list), ("map", .map), ("omap", .orderedMap),
    ("pairs", .pairs), ("set", .set), ("merge", .merge), ("value", .default)]

/-- The kind a tag names. -/
def Kind.ofTag? (tag : String) : Option Kind :=
  (Kind.names.find? fun n => tagStart ++ n.1 == tag).map Prod.snd

/-! ## Forms -/

/-- A word in lower case, with a capital or in capitals. -/
def spellings (word : String) : List String :=
  let cs := word.toList
  [word, String.ofList (cs.take 1 |>.map Char.toUpper) ++ String.ofList (cs.drop 1),
    String.ofList (cs.map Char.toUpper)]

def trueWords : List String := ["yes", "true", "on"]

def falseWords : List String := ["no", "false", "off"]

def isBool (s : String) : Bool := ((trueWords ++ falseWords).flatMap spellings).contains s

def isNull (s : String) : Bool := s.isEmpty || s == "~" || (spellings "null").contains s

/-- The characters after a sign. -/
def dropSign : List Char → List Char
  | '+' :: cs => cs
  | '-' :: cs => cs
  | cs => cs

def isDigitOr (c : Char) : Bool := isDigit c || c = '_'

def isOctalOr (c : Char) : Bool := ('0' ≤ c && c ≤ '7') || c = '_'

def isBinaryOr (c : Char) : Bool := c = '0' || c = '1' || c = '_'

def isHexOr (c : Char) : Bool :=
  isDigit c || ('a' ≤ c && c ≤ 'f') || ('A' ≤ c && c ≤ 'F') || c = '_'

/-- A group to the base of sixty: one digit, or two of which the first is below six. -/
def isSixtieth : List Char → Bool
  | [a] => isDigit a
  | [a, b] => '0' ≤ a && a ≤ '5' && isDigit b
  | _ => false

def isInt (cs : List Char) : Bool :=
  match dropSign cs with
  | '0' :: 'b' :: cs => !cs.isEmpty && cs.all isBinaryOr
  | '0' :: 'x' :: cs => !cs.isEmpty && cs.all isHexOr
  | '0' :: cs => cs.all isOctalOr
  | c :: cs =>
    isDigit c && match split ':' cs with
      | whole :: groups => whole.all isDigitOr && groups.all isSixtieth
      | [] => false
  | [] => false

/-- An exponent with its sign, or nothing. -/
def isExponent : List Char → Bool
  | [] => true
  | e :: sign :: cs =>
    (e = 'e' || e = 'E') && (sign = '+' || sign = '-') && !cs.isEmpty && cs.all isDigit
  | _ => false

/-- Digits after a point, and an exponent. -/
def isFraction (cs : List Char) : Bool := isExponent (cs.dropWhile isDigitOr)

def isFloat (cs : List Char) : Bool :=
  let infinities := ["inf", "Inf", "INF"].map String.toList
  let nans := ["nan", "NaN", "NAN"].map String.toList
  let body := dropSign cs
  match cut '.' body with
  | (_, none) => false
  | ([], some after) =>
    infinities.contains after ||
      (body == cs && (nans.contains after || (after.head?.any isDigit && isFraction after)))
  | (whole, some after) =>
    whole.head?.any isDigit && match split ':' whole with
      | [digits] => digits.all isDigitOr && isFraction after
      | digits :: groups =>
        digits.all isDigitOr && groups.all isSixtieth && after.all isDigitOr
      | [] => false

/-! ## Moments -/

/-- The numbers of a moment as they are written. -/
structure MomentText where
  year : Nat
  month : Nat
  day : Nat
  /-- hours, minutes, seconds and microseconds, unless it is a date alone -/
  clock : Option (Nat × Nat × Nat × Nat)
  /-- minutes ahead of UTC -/
  offset : Option Int

/-- One or two digits at the start of the input. -/
def takeShort? (cs : List Char) : Option (Nat × List Char) :=
  match takeFixed? 2 cs with
  | some r => some r
  | none => takeFixed? 1 cs

/-- The offset that ends a moment: nothing, `Z`, or a sign, hours and perhaps minutes, blanks before
it being left out. -/
def readZone? (cs : List Char) : Option (Option Int) :=
  match cs.dropWhile fun c => c = ' ' || c = '\t' with
  | [] => if cs.isEmpty then some none else none
  | ['Z'] => some (some 0)
  | sign :: rest => do
    let (hours, rest) ← takeShort? rest
    let minutes ← match rest with
      | [] => some 0
      | ':' :: rest => do
        let (minutes, rest) ← takeFixed? 2 rest
        if rest.isEmpty then some minutes else none
      | _ => none
    let size : Int := hours * 60 + minutes
    if sign = '+' then some (some size)
    else if sign = '-' then some (some (-size))
    else none

/-- What divides date and time: a `T` or blanks. -/
def takeDivider? : List Char → Option (List Char)
  | 'T' :: cs => some cs
  | 't' :: cs => some cs
  | cs =>
    let rest := cs.dropWhile fun c => c = ' ' || c = '\t'
    if rest.length < cs.length then some rest else none

/-- The numbers of a moment or date. -/
def readMoment? (cs : List Char) : Option MomentText := do
  let (year, cs) ← takeFixed? 4 cs
  let cs ← takeChar? '-' cs
  let (month, cs) ← takeShort? cs
  let cs ← takeChar? '-' cs
  let (day, cs) ← takeShort? cs
  if cs.isEmpty then some ⟨year, month, day, none, none⟩
  else
    let cs ← takeDivider? cs
    let (hours, cs) ← takeShort? cs
    let cs ← takeChar? ':' cs
    let (minutes, cs) ← takeFixed? 2 cs
    let cs ← takeChar? ':' cs
    let (seconds, cs) ← takeFixed? 2 cs
    let (digits, cs) := match cs with
      | '.' :: cs => (cs.takeWhile isDigit, cs.dropWhile isDigit)
      | _ => ([], cs)
    let offset ← readZone? cs
    some ⟨year, month, day, some (hours, minutes, seconds, fractionMicros digits), offset⟩

/-- Whether a plain scalar has the form of a moment; a date alone has two digits for month and
day. -/
def isMoment (cs : List Char) : Bool :=
  match readMoment? cs with
  | some t => t.clock.isSome || cs.length = 10
  | none => false

/-- The kind of a plain scalar, by its form. -/
def Kind.ofPlain (s : String) : Kind :=
  let cs := s.toList
  if isBool s then .bool
  else if isFloat cs then .float
  else if isInt cs then .int
  else if s == "<<" then .merge
  else if isNull s then .null
  else if isMoment cs then .moment
  else if s == "=" then .default
  else .text

/-! ## Values -/

/-- The most decimal digits a number may have. -/
def maxDigits : Nat := 4300

/-- A number to a base. -/
def readNumber (base : Nat) (cs : List Char) : Except Fault Int :=
  let bad : Fault := .badValue ("invalid literal for int() with base " ++ toString base ++ ": " ++
    quoted (String.ofList cs))
  match cs.mapM hexValue? with
  | some ds =>
    if ds.isEmpty || ds.any (base ≤ ·) then .error bad
    else if base = 10 && maxDigits < ds.length then
      .error (.badValue ("Exceeds the limit (" ++ toString maxDigits ++
        " digits) for integer string conversion: value has " ++ toString ds.length ++
        " digits; use sys.set_int_max_str_digits() to increase the limit"))
    else .ok (ds.foldl (fun acc d => acc * base + d) 0 : Nat)
  | none => .error bad

/-- The number a text stands for without its underscores and sign, and whether it is negative. -/
def takeSign (cs : List Char) : Except Fault (Bool × List Char) :=
  match cs.filter (· ≠ '_') with
  | [] => .error .emptyNumber
  | c :: cs => .ok (c = '-', if c = '-' || c = '+' then cs else c :: cs)

def intValue (cs : List Char) : Except Fault Value := do
  let (negative, cs) ← takeSign cs
  let n ← match cs with
    | [] => .error .emptyNumber
    | ['0'] => .ok 0
    | '0' :: 'b' :: cs => readNumber 2 cs
    | '0' :: 'x' :: cs => readNumber 16 cs
    | '0' :: _ => readNumber 8 cs
    | cs => do
      let groups ← (split ':' cs).mapM (readNumber 10)
      .ok (groups.foldl (fun acc d => acc * 60 + d) 0)
  .ok (.int (if negative then -n else n))

/-- A number in decimal notation. -/
def readReal (cs : List Char) : Except Fault Binary64 :=
  match Decimal.readFloat? cs with
  | some x => .ok x
  | none => .error (.badValue ("could not convert string to float: " ++ quoted (String.ofList cs)))

/-- The sum of groups to the base of sixty, the last group first. -/
def sumGroups : List Binary64 → Int → Binary64 → Binary64
  | [], _, sum => sum
  | x :: rest, base, sum => sumGroups rest (base * 60) (sum.add (x.mul (.ofInt base)))

def floatValue (cs : List Char) : Except Fault Value := do
  let (negative, cs) ← takeSign (cs.map Char.toLower)
  let x ← if cs = ".inf".toList then .ok (Binary64.infinite false)
    else if cs = ".nan".toList then .ok .nan
    else if cs.contains ':' then do
      .ok (sumGroups (← (split ':' cs).mapM readReal).reverse 1 (.zero false))
    else readReal cs
  .ok (.float (if negative then x.mul (.ofInt (-1)) else x))

def boolValue (s : String) : Except Fault Value :=
  let word := String.ofList (s.toList.map Char.toLower)
  if trueWords.contains word then .ok (.bool true)
  else if falseWords.contains word then .ok (.bool false)
  else .error (.unknownWord s)

/-- Fails with a message unless a condition holds. -/
def demand (ok : Bool) (message : String) : Except Fault Unit :=
  if ok then .ok () else .error (.badValue message)

/-- The date of three numbers. -/
def dateOf (year month day : Nat) : Except Fault Date := do
  demand (1 ≤ year && year ≤ lastYear) ("year " ++ toString year ++ " is out of range")
  demand (1 ≤ month && month ≤ 12) "month must be in 1..12"
  demand (1 ≤ day && day ≤ daysInMonth year month) "day is out of range for month"
  .ok ⟨year, month, day⟩

/-- The offset of a number of minutes, in seconds. -/
def offsetOf (minutes : Int) : Except Fault Int := do
  let d : Duration := minutes * 60 * microsPerSecond
  demand (minutes.natAbs < 24 * 60) ("offset must be a timedelta strictly between " ++
    "-timedelta(hours=24) and timedelta(hours=24), not " ++ Shown.duration d ++ ".")
  .ok (minutes * 60)

def momentValue (cs : List Char) : Except Fault Value :=
  match readMoment? cs with
  | none => .error .noMoment
  | some t =>
    match t.clock with
    | none => do .ok (.scalar (.date (← dateOf t.year t.month t.day)))
    | some (hours, minutes, seconds, micros) => do
      let offset ← t.offset.mapM offsetOf
      let d ← dateOf t.year t.month t.day
      demand (hours < 24) "hour must be in 0..23"
      demand (minutes < 60) "minute must be in 0..59"
      demand (seconds < 60) "second must be in 0..59"
      .ok (.scalar (.moment
        ⟨d.dayNumber * microsPerDay + clockMicros hours minutes seconds micros, offset⟩))

/-- The six bits a character stands for in base 64. -/
def sixBits? (c : Char) : Option Nat :=
  if 'A' ≤ c && c ≤ 'Z' then some (c.toNat - 65)
  else if 'a' ≤ c && c ≤ 'z' then some (c.toNat - 71)
  else if isDigit c then some (c.toNat + 4)
  else if c = '+' then some 62
  else if c = '/' then some 63
  else none

/-- The bytes of a text in base 64.  `place` is the place in a group of four, `carry` the bits left
over and `pads` how many signs of padding have been seen since.  Characters without a value are left
out, and full padding ends the text. -/
def bytesFrom (place carry pads : Nat) : List Char → Option (List UInt8)
  | [] => if place = 0 then some [] else none
  | c :: cs =>
    if c = '=' then
      if 2 ≤ place then
        if 4 ≤ place + pads + 1 then some [] else bytesFrom place carry (pads + 1) cs
      else bytesFrom place carry pads cs
    else match sixBits? c with
      | none => bytesFrom place carry pads cs
      | some n =>
        match place with
        | 0 => bytesFrom 1 n 0 cs
        | 1 => (bytesFrom 2 (n % 16) 0 cs).map (UInt8.ofNat (carry * 4 + n / 16) :: ·)
        | 2 => (bytesFrom 3 (n % 4) 0 cs).map (UInt8.ofNat (carry * 16 + n / 4) :: ·)
        | _ => (bytesFrom 0 0 0 cs).map (UInt8.ofNat (carry * 64 + n) :: ·)

def bytesValue (cs : List Char) : Except Fault Value :=
  if cs.all fun c => c.toNat < 128 then
    match bytesFrom 0 0 0 cs with
    | some bs => .ok (.scalar (.bytes bs))
    | none => .error .malformed
  else .error .malformed

/-- The value of a text of a kind. -/
def Kind.value (kind : Kind) (s : String) : Except Fault Value :=
  match kind with
  | .null => .ok .null
  | .bool => boolValue s
  | .int => intValue s.toList
  | .float => floatValue s.toList
  | .bytes => bytesValue s.toList
  | .moment => momentValue s.toList
  | .text => .ok (.text s)
  | _ => .error .malformed

end AccessRules.Yaml
