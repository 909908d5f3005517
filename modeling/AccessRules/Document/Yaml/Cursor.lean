/-!
# Characters and places of a YAML text

The classes of characters the format tells apart, what may stand in a text at all, and a cursor that
knows its line and column.  Five characters end a line; the pair of carriage return and line feed
ends it once, and all ends of lines but the two separators of Unicode are read as a line feed.
-/

namespace AccessRules.Yaml

/-- A character that ends a line. -/
def isBreak (c : Char) : Bool :=
  c = '\n' || c = '\r' || c = '\x85' || c = '\u2028' || c = '\u2029'

/-- A blank within a line. -/
def isBlank (c : Char) : Bool := c = ' ' || c = '\t'

/-- A blank or the end of a line. -/
def isSpace (c : Char) : Bool := isBlank c || isBreak c

/-- A letter, a digit, a hyphen or an underscore. -/
def isWordChar (c : Char) : Bool := c.isAlphanum || c = '-' || c = '_'

/-- A character that may stand in a text. -/
def isAllowed (c : Char) : Bool :=
  let n := c.toNat
  n = 0x09 || n = 0x0a || n = 0x0d || (0x20 ≤ n && n ≤ 0x7e) || n = 0x85 ||
    (0xa0 ≤ n && n ≤ 0xd7ff) || (0xe000 ≤ n && n ≤ 0xfffd) || 0x10000 ≤ n

/-- Whether a text is over or goes on with such a character. -/
def endOr (p : Char → Bool) : Option Char → Bool
  | none => true
  | some c => p c

/-- The mark some writers put before a text. -/
def orderMark : Char := '\ufeff'

/-- The rest of a text and where it starts. -/
structure Cursor where
  rest : List Char
  offset : Nat
  line : Nat
  column : Nat
  deriving Repr

namespace Cursor

/-- The start of a text. -/
def ofChars (cs : List Char) : Cursor := ⟨cs, 0, 0, 0⟩

/-- The character `k` places ahead. -/
def peek? (c : Cursor) (k : Nat) : Option Char := c.rest[k]?

/-- The cursor after one character. -/
def next (c : Cursor) : Cursor :=
  match c.rest with
  | [] => c
  | ch :: rest =>
    if isBreak ch && !(ch = '\r' && rest.head? = some '\n') then
      ⟨rest, c.offset + 1, c.line + 1, 0⟩
    else if ch = orderMark then ⟨rest, c.offset + 1, c.line, c.column⟩
    else ⟨rest, c.offset + 1, c.line, c.column + 1⟩

/-- The cursor after `n` characters. -/
def skip (c : Cursor) : Nat → Cursor
  | 0 => c
  | n + 1 => c.next.skip n

/-- The characters up to the first that fails `p`, and the cursor after them. -/
def takeWhile (c : Cursor) (p : Char → Bool) : List Char × Cursor :=
  let cs := c.rest.takeWhile p
  (cs, c.skip cs.length)

/-- The cursor at the first character that fails `p`. -/
def dropWhile (c : Cursor) (p : Char → Bool) : Cursor := (c.takeWhile p).2

/-- The end of a line at the cursor, as it is read, and the cursor after it. -/
def takeBreak? (c : Cursor) : Option (Char × Cursor) :=
  match c.rest with
  | '\r' :: '\n' :: _ => some ('\n', c.skip 2)
  | ch :: _ =>
    if ch = '\u2028' || ch = '\u2029' then some (ch, c.next)
    else if isBreak ch then some ('\n', c.next)
    else none
  | [] => none

/-- Whether three equal characters that mark the edge of a document stand at the cursor. -/
def atMark (c : Cursor) (ch : Char) : Bool :=
  c.rest.take 3 == [ch, ch, ch] && endOr isSpace (c.peek? 3)

/-- Whether either edge of a document stands at the cursor. -/
def atEdge (c : Cursor) : Bool := c.atMark '-' || c.atMark '.'

/-- The cursor after the blanks and the comment at the end of a line, if nothing else is there. -/
def endOfLine? (c : Cursor) : Option Cursor :=
  let c := c.dropWhile (· = ' ')
  let c := if c.peek? 0 = some '#' then c.dropWhile (!isBreak ·) else c
  match c.takeBreak? with
  | some (_, after) => some after
  | none => if c.rest.isEmpty then some c else none

end Cursor

end AccessRules.Yaml
