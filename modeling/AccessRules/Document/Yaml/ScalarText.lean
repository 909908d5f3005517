import AccessRules.Document.Yaml.Cursor
import AccessRules.Document.Yaml.Token
import AccessRules.Text.Digits

/-!
# The text of a scalar

Scalars are written plain, between quotes, or as a block of indented lines.  Each form has a
function that reads it from the cursor to its end.

Lines are folded alike in the first two: one end of line counts as a blank, and of more the first is
left out.
-/

namespace AccessRules.Yaml

/-- What stands for the end of a line `first` and the ends of empty lines after it. -/
def fold (first : Char) (more : List Char) : List Char :=
  if first ≠ '\n' then first :: more
  else if more.isEmpty then [' ']
  else more

/-! ## Between quotes -/

/-- What a letter after a backslash stands for. -/
def escapeOf? : Char → Option Char
  | '0' => some '\x00'
  | 'a' => some '\x07'
  | 'b' => some '\x08'
  | 't' => some '\t'
  | '\t' => some '\t'
  | 'n' => some '\n'
  | 'v' => some '\x0b'
  | 'f' => some '\x0c'
  | 'r' => some '\r'
  | 'e' => some '\x1b'
  | ' ' => some ' '
  | '"' => some '"'
  | '\\' => some '\\'
  | '/' => some '/'
  | 'N' => some '\x85'
  | '_' => some '\xa0'
  | 'L' => some '\u2028'
  | 'P' => some '\u2029'
  | _ => none

/-- How many hexadecimal digits follow a letter after a backslash. -/
def escapeWidth? : Char → Option Nat
  | 'x' => some 2
  | 'u' => some 4
  | 'U' => some 8
  | _ => none

/-- The number of exactly `width` hexadecimal digits at the cursor. -/
def takeHex? (width : Nat) (c : Cursor) : Option (Nat × Cursor) :=
  let digits := c.rest.take width
  if digits.length < width then none
  else (digits.mapM Text.hexValue?).map fun ds => (ds.foldl (fun acc d => acc * 16 + d) 0, c.skip width)

/-- The character of a number. -/
def charOf (n : Nat) : Except Fault Char :=
  if 0x110000 ≤ n then .error (.badValue "chr() arg not in range(0x110000)")
  else if 0xd800 ≤ n && n < 0xe000 then .ok '\ufffd'
  else .ok (Char.ofNat n)

/-- The ends of empty lines at the cursor, and the first character of text after them. -/
def takeEmptyLines : Nat → Cursor → Except Fault (List Char × Cursor)
  | 0, _ => .error .malformed
  | fuel + 1, c =>
    if c.atEdge then .error .malformed
    else
      let c := c.dropWhile isBlank
      match c.takeBreak? with
      | none => .ok ([], c)
      | some (ch, c) => do
        let (more, c) ← takeEmptyLines fuel c
        .ok (ch :: more, c)

/-- An escape whose backslash is at the cursor. -/
def takeEscape (fuel : Nat) (c : Cursor) : Except Fault (List Char × Cursor) :=
  let c := c.next
  match c.peek? 0 with
  | none => .error .malformed
  | some ch =>
    match escapeOf? ch, escapeWidth? ch with
    | some r, _ => .ok ([r], c.next)
    | none, some width =>
      match takeHex? width c.next with
      | none => .error .malformed
      | some (n, c) => do .ok ([← charOf n], c)
    | none, none =>
      match c.takeBreak? with
      | some (_, c) => takeEmptyLines fuel c
      | none => .error .malformed

/-- Blanks and ends of lines within quotes. -/
def takeGap (fuel : Nat) (c : Cursor) : Except Fault (List Char × Cursor) :=
  let (blanks, c) := c.takeWhile isBlank
  match c.takeBreak? with
  | none => .ok (blanks, c)
  | some (first, c) => do
    let (more, c) ← takeEmptyLines fuel c
    .ok (fold first more, c)

/-- The text after an opening quote, up to and over the closing one.  Between double quotes a
backslash escapes; between single ones a quote is written twice. -/
def takeQuoted (quote : Char) : Nat → Cursor → Except Fault (List Char × Cursor)
  | 0, _ => .error .malformed
  | fuel + 1, c =>
    match c.rest with
    | [] => .error .malformed
    | ch :: rest => do
      let goOn (text : List Char) (c : Cursor) : Except Fault (List Char × Cursor) := do
        let (more, c) ← takeQuoted quote fuel c
        .ok (text ++ more, c)
      if ch = quote then
        if quote = '\'' && rest.head? = some '\'' then goOn ['\''] (c.skip 2)
        else .ok ([], c.next)
      else if quote = '"' && ch = '\\' then
        let (text, c) ← takeEscape fuel c
        goOn text c
      else if isSpace ch then
        let (text, c) ← takeGap fuel c
        goOn text c
      else goOn [ch] c.next

/-! ## Plain -/

/-- Whether a plain scalar ends before a character; `after` is the one that follows it. -/
def endsPlain (inFlow : Bool) (ch : Char) (after : Option Char) : Bool :=
  isSpace ch ||
    (ch = ':' && endOr (fun c => isSpace c || (inFlow && [',', '[', ']', '{', '}'].contains c)) after) ||
    (inFlow && [',', '?', '[', ']', '{', '}'].contains ch)

/-- The characters of a plain scalar up to its first blank or its end. -/
def plainRun (inFlow : Bool) : List Char → List Char
  | [] => []
  | ch :: rest => if endsPlain inFlow ch rest.head? then [] else ch :: plainRun inFlow rest

/-- The ends of empty lines and the blanks before the next line of a plain scalar; `none` when the
edge of a document comes first. -/
def takePlainLines : Nat → Cursor → Option (List Char) × Cursor
  | 0, c => (none, c)
  | fuel + 1, c =>
    let c := c.dropWhile (· = ' ')
    match c.takeBreak? with
    | none => (some [], c)
    | some (ch, c) =>
      if c.atEdge then (none, c)
      else
        let (more, c) := takePlainLines fuel c
        (more.map (ch :: ·), c)

/-- A gap within a plain scalar: what stands for it, whether a line has ended, and the cursor after
it.  What stands for it is empty where the scalar cannot go on. -/
def takePlainGap (fuel : Nat) (c : Cursor) : List Char × Bool × Cursor :=
  let (blanks, c) := c.takeWhile (· = ' ')
  match c.takeBreak? with
  | none => (blanks, false, c)
  | some (first, c) =>
    if c.atEdge then ([], true, c)
    else match takePlainLines fuel c with
      | (none, c) => ([], true, c)
      | (some more, c) => (fold first more, true, c)

/-- A plain scalar: its text, whether it ended with the end of a line, and the cursor after it.
`indent` is the least column of its further lines outside flow collections. -/
def takePlain (inFlow : Bool) (indent : Int) : Nat → Cursor → List Char × Bool × Cursor
  | 0, c => ([], false, c)
  | fuel + 1, c =>
    let run := plainRun inFlow c.rest
    let c := c.skip run.length
    let (gap, crossed, c) := takePlainGap fuel c
    if gap.isEmpty || c.peek? 0 = some '#' || (!inFlow && (c.column : Int) < indent) then
      (run, crossed, c)
    else if (plainRun inFlow c.rest).isEmpty then (run, crossed, c)
    else
      let (more, crossed, c) := takePlain inFlow indent fuel c
      (run ++ gap ++ more, crossed, c)

/-! ## Blocks -/

/-- What becomes of the ends of lines at the end of a block. -/
inductive Chomping where
  | strip
  | clip
  | keep
  deriving DecidableEq, Repr

def Chomping.ofChar? : Char → Option Chomping
  | '+' => some .keep
  | '-' => some .strip
  | _ => none

/-- An explicit indentation, a digit from 1 to 9; `0` is a mistake. -/
def takeIncrement (c : Cursor) : Except Fault (Option Nat × Cursor) :=
  match c.rest with
  | ch :: _ =>
    if ch = '0' then .error .malformed
    else if ch.isDigit then .ok (some (ch.toNat - 48), c.next)
    else .ok (none, c)
  | [] => .ok (none, c)

/-- The sign of a chomping, if it is at the cursor. -/
def takeChomping (c : Cursor) : Chomping × Bool × Cursor :=
  match (c.peek? 0).bind Chomping.ofChar? with
  | some ch => (ch, true, c.next)
  | none => (.clip, false, c)

/-- The header of a block after its first character: chomping and indentation in either order. -/
def takeHeader (c : Cursor) : Except Fault ((Chomping × Option Nat) × Cursor) := do
  let (chomping, found, c) := takeChomping c
  let (increment, c) ← takeIncrement c
  let (chomping, c) :=
    if found then (chomping, c)
    else
      let (late, _, after) := takeChomping c
      if increment.isSome then (late, after) else (chomping, c)
  if endOr (fun ch => ch = ' ' || isBreak ch) (c.peek? 0) then
    match c.endOfLine? with
    | some c => .ok ((chomping, increment), c)
    | none => .error .malformed
  else .error .malformed

/-- The ends of the empty lines a block starts with, and the greatest column reached on them. -/
def takeLeading : Nat → Cursor → Nat → List Char × Nat × Cursor
  | 0, c, most => ([], most, c)
  | fuel + 1, c, most =>
    let c := c.dropWhile (· = ' ')
    let most := max most c.column
    match c.takeBreak? with
    | none => ([], most, c)
    | some (ch, c) =>
      let (more, most, c) := takeLeading fuel c most
      (ch :: more, most, c)

/-- The cursor after at most the blanks up to a column. -/
def toColumn (column : Nat) (c : Cursor) : Cursor :=
  c.skip ((c.rest.take (column - c.column)).takeWhile (· = ' ')).length

/-- The ends of empty lines before the next line of a block, and the cursor at that line's text. -/
def takeBlockLines (column : Nat) : Nat → Cursor → List Char × Cursor
  | 0, c => ([], c)
  | fuel + 1, c =>
    let c := toColumn column c
    match c.takeBreak? with
    | none => ([], c)
    | some (ch, c) =>
      let (more, c) := takeBlockLines column fuel c
      (ch :: more, c)

/-- What stands between two lines of a block: in a folded one a blank, unless either line starts
with a blank or empty lines follow. -/
def between (folded startsBlank nextBlank : Bool) (ch : Char) (more : List Char) : List Char :=
  if folded && ch = '\n' && !startsBlank && !nextBlank then
    if more.isEmpty then [' '] else []
  else [ch]

/-- Whether the cursor stands at a blank. -/
def atBlank (c : Cursor) : Bool := (c.peek? 0).any isBlank

/-- The lines of a block from the text of a line on: their text, the end of the last line, the ends
of the empty lines after it, and the cursor there. -/
def takeLines (folded : Bool) (column : Nat) :
    Nat → Cursor → List Char × List Char × List Char × Cursor
  | 0, c => ([], [], [], c)
  | fuel + 1, c =>
    let startsBlank := atBlank c
    let (line, c) := c.takeWhile (!isBreak ·)
    let (ends, c) := match c.takeBreak? with
      | some (ch, c) => ([ch], c)
      | none => ([], c)
    let (more, c) := takeBlockLines column fuel c
    if c.column = column && !c.rest.isEmpty then
      let joint := match ends with
        | ch :: _ => between folded startsBlank (atBlank c) ch more
        | [] => []
      let (text, last, trailing, c) := takeLines folded column fuel c
      (line ++ joint ++ more ++ text, last, trailing, c)
    else (line, ends, more, c)

/-- A block after its first character, inside a collection at column `indent`. -/
def takeBlock (folded : Bool) (indent : Int) (fuel : Nat) (c : Cursor) : Except Fault (List Char × Cursor) := do
  let ((chomping, increment), c) ← takeHeader c
  let least := max 1 (indent + 1).toNat
  let (column, leading, c) := match increment with
    | none =>
      let (leading, most, c) := takeLeading fuel c 0
      (max least most, leading, c)
    | some n =>
      let column := least + n - 1
      let (leading, c) := takeBlockLines column fuel c
      (column, leading, c)
  if c.column = column && !c.rest.isEmpty then
    let (text, last, trailing, c) := takeLines folded column fuel c
    .ok (leading ++ text ++ (if chomping = .strip then [] else last) ++
      (if chomping = .keep then trailing else []), c)
  else .ok (if chomping = .keep then leading else [], c)

end AccessRules.Yaml
