import AccessRules.Document.Yaml.ScalarText

/-!
# Tokens of a text

`Token.ofText` finds the tokens of a YAML text from left to right.

A key of a map need not be marked: any scalar, alias or flow collection that fits on one line may
turn out to be one when a colon follows.  Such a candidate is remembered for each level of flow
collections, and the colon puts the tokens for a key, and if need be for a new map, in front of it.
A candidate at the column of the enclosing block has to be a key.
-/

namespace AccessRules.Yaml

/-- A place at which a key may have started. -/
structure Candidate where
  /-- how many tokens come before it -/
  position : Nat
  required : Bool
  offset : Nat
  line : Nat
  column : Nat
  deriving Repr

/-- The tokens found so far and what the next ones depend on. -/
structure Lexer where
  cursor : Cursor
  /-- the tokens, the last one first -/
  tokens : List Token
  count : Nat
  /-- how many flow collections are open -/
  flow : Nat
  /-- the column of the innermost block, -1 outside of all -/
  indent : Int
  /-- the columns of the blocks around it -/
  outer : List Int
  keyAllowed : Bool
  candidates : List (Nat × Candidate)
  deriving Repr

namespace Lexer

/-- The most characters a key without a mark may have. -/
def maxKey : Nat := 1024

def start (cs : List Char) : Lexer := ⟨.ofChars cs, [], 0, 0, -1, [], true, []⟩

def inFlow (s : Lexer) : Bool := s.flow ≠ 0

def push (s : Lexer) (t : Token) : Lexer := { s with tokens := t :: s.tokens, count := s.count + 1 }

/-- Puts a token in front of those from `position` on. -/
def insert (s : Lexer) (position : Nat) (t : Token) : Lexer :=
  { s with tokens := s.tokens.insertIdx (s.count - position) t, count := s.count + 1 }

def moveTo (s : Lexer) (c : Cursor) : Lexer := { s with cursor := c }

def allowKey (s : Lexer) (allowed : Bool) : Lexer := { s with keyAllowed := allowed }

/-- Whether a candidate can no longer become a key. -/
def isStale (s : Lexer) (k : Candidate) : Bool :=
  k.line ≠ s.cursor.line || maxKey < s.cursor.offset - k.offset

/-- Forgets the candidates for which `gone` holds; none of them may be required. -/
def forget (s : Lexer) (gone : Nat → Candidate → Bool) : Except Fault Lexer :=
  if s.candidates.any fun (level, k) => gone level k && k.required then .error .malformed
  else .ok { s with candidates := s.candidates.filter fun (level, k) => !gone level k }

/-- Forgets the candidate of the current level. -/
def forgetCurrent (s : Lexer) : Except Fault Lexer := s.forget fun level _ => level = s.flow

/-- Remembers that a key may start at the cursor. -/
def propose (s : Lexer) : Except Fault Lexer :=
  if !s.keyAllowed then .ok s
  else do
    let c := s.cursor
    let required := !s.inFlow && s.indent = (c.column : Int)
    let s ← s.forgetCurrent
    .ok { s with candidates := (s.flow, ⟨s.count, required, c.offset, c.line, c.column⟩) :: s.candidates }

/-- Ends the blocks that are indented further than `column`. -/
def unwind (s : Lexer) (column : Int) : List Int → Lexer
  | [] => s
  | above :: rest =>
    if column < s.indent then
      unwind { s.push .blockEnd with indent := above, outer := rest } column rest
    else s

/-- Ends blocks, unless a flow collection is open. -/
def unwindTo (s : Lexer) (column : Int) : Lexer := if s.inFlow then s else s.unwind column s.outer

/-- Opens a block at a column, if none is open there. -/
def openBlock (s : Lexer) (column : Nat) (position : Nat) (t : Token) : Lexer :=
  if s.indent < column then
    { s.insert position t with indent := column, outer := s.indent :: s.outer }
  else s

/-- The cursor moved over blanks, comments and ends of lines.  After the end of a line outside flow
collections a key is allowed. -/
def toToken : Nat → Lexer → Lexer
  | 0, s => s
  | fuel + 1, s =>
    let c := if s.cursor.offset = 0 && s.cursor.peek? 0 = some orderMark then s.cursor.next else s.cursor
    let c := c.dropWhile (· = ' ')
    let c := if c.peek? 0 = some '#' then c.dropWhile (!isBreak ·) else c
    match c.takeBreak? with
    | none => s.moveTo c
    | some (_, c) =>
      let s := s.moveTo c
      toToken fuel (if s.inFlow then s else s.allowKey true)

/-! ## The kinds of tokens -/

/-- A token that can be no part of a key. -/
def mark (s : Lexer) (t : Token) (length : Nat) (keyAllowed : Bool) : Except Fault Lexer := do
  let s ← s.forgetCurrent
  .ok (((s.allowKey keyAllowed).moveTo (s.cursor.skip length)).push t)

/-- An edge of a document. -/
def edge (s : Lexer) (t : Token) : Except Fault Lexer := (s.unwindTo (-1)).mark t 3 false

/-- A word after a one-character sign. -/
def named (s : Lexer) (t : String → Token) : Except Fault Lexer := do
  let s ← s.propose
  let (name, c) := s.cursor.next.takeWhile isWordChar
  let follows (ch : Char) : Bool := isSpace ch || ['?', ':', ',', ']', '}', '%', '@', '`'].contains ch
  if name.isEmpty || !endOr follows (c.peek? 0) then .error .malformed
  else .ok (((s.allowKey false).moveTo c).push (t (String.ofList name)))

/-- A character of the body of a tag. -/
def isTagChar (c : Char) : Bool :=
  c.isAlphanum || ['-', ';', '/', '?', ':', '@', '&', '=', '+', '$', ',', '_', '.', '!', '~', '*',
    '\'', '(', ')', '[', ']', '%'].contains c

/-- Bytes given as `%` and two hexadecimal digits each. -/
def takeEncoded : Nat → Cursor → Except Fault (List UInt8 × Cursor)
  | 0, c => .ok ([], c)
  | fuel + 1, c =>
    if c.peek? 0 = some '%' then
      match takeHex? 2 c.next with
      | none => .error .malformed
      | some (n, c) => do
        let (more, c) ← takeEncoded fuel c
        .ok (UInt8.ofNat n :: more, c)
    else .ok ([], c)

/-- The body of a tag. -/
def takeTagBody : Nat → Cursor → Except Fault (List Char × Cursor)
  | 0, c => .ok ([], c)
  | fuel + 1, c =>
    match c.peek? 0 with
    | some '%' => do
      let (bytes, c) ← takeEncoded fuel c
      match String.fromUTF8? ⟨bytes.toArray⟩ with
      | none => .error .malformed
      | some s =>
        let (more, c) ← takeTagBody fuel c
        .ok (s.toList ++ more, c)
    | some ch =>
      if isTagChar ch then do
        let (more, c) ← takeTagBody fuel c.next
        .ok (ch :: more, c)
      else .ok ([], c)
    | none => .ok ([], c)

/-- The body of a tag, which must not be missing. -/
def takeTagText (c : Cursor) : Except Fault (String × Cursor) := do
  if (c.peek? 0).any isTagChar then
    let (cs, c) ← takeTagBody (c.rest.length + 1) c
    .ok (String.ofList cs, c)
  else .error .malformed

/-- The handle of a tag: `!`, or a word between two of them. -/
def takeHandle (c : Cursor) : Except Fault (String × Cursor) :=
  if c.peek? 0 ≠ some '!' then .error .malformed
  else if c.peek? 1 = some ' ' then .ok ("!", c.next)
  else
    let (word, c) := c.next.takeWhile isWordChar
    if c.peek? 0 = some '!' then .ok (String.ofList ('!' :: word ++ ['!']), c.next)
    else .error .malformed

/-- Whether a space or the end of the line is at the cursor. -/
def atGap (c : Cursor) : Bool := endOr (fun ch => ch = ' ' || isBreak ch) (c.peek? 0)

/-- A tag whose `!` is at the cursor. -/
def takeTag (c : Cursor) : Except Fault (Tag × Cursor) := do
  let (tag, c) ← match c.peek? 1 with
    | some '<' => do
      let (suffix, c) ← takeTagText (c.skip 2)
      if c.peek? 0 = some '>' then .ok (Tag.mk none suffix, c.next) else .error .malformed
    | next =>
      if endOr isSpace next then .ok (Tag.mk none "!", c.next)
      else
        let word := c.next.rest.takeWhile fun ch => !(ch = ' ' || isBreak ch)
        if word.contains '!' then do
          let (handle, c) ← takeHandle c
          let (suffix, c) ← takeTagText c
          .ok (Tag.mk (some handle) suffix, c)
        else do
          let (suffix, c) ← takeTagText c.next
          .ok (Tag.mk (some "!") suffix, c)
  if atGap c then .ok (tag, c) else .error .malformed

/-- A number of a directive. -/
def takeNumber (c : Cursor) : Except Fault (Nat × Cursor) :=
  let (digits, c) := c.takeWhile Char.isDigit
  if digits.isEmpty then .error .malformed
  else .ok (digits.foldl (fun acc d => acc * 10 + (d.toNat - 48)) 0, c)

/-- The number of a version. -/
def takeVersion (c : Cursor) : Except Fault (Token × Cursor) := do
  let (major, c) ← takeNumber (c.dropWhile (· = ' '))
  if c.peek? 0 = some '.' then
    let (_, c) ← takeNumber c.next
    if atGap c then .ok (.version major, c) else .error .malformed
  else .error .malformed

/-- A handle and what it stands for. -/
def takeTagHandle (c : Cursor) : Except Fault (Token × Cursor) := do
  let (handle, c) ← takeHandle (c.dropWhile (· = ' '))
  if c.peek? 0 = some ' ' then
    let (start, c) ← takeTagText (c.dropWhile (· = ' '))
    if atGap c then .ok (.tagHandle handle start, c) else .error .malformed
  else .error .malformed

/-- A directive, a line of its own. -/
def directive (s : Lexer) : Except Fault Lexer := do
  let s ← (s.unwindTo (-1)).forgetCurrent
  let (name, c) := s.cursor.next.takeWhile isWordChar
  if name.isEmpty || !atGap c then .error .malformed
  else
    let (token, c) ←
      if name = "YAML".toList then takeVersion c
      else if name = "TAG".toList then takeTagHandle c
      else .ok (.otherDirective, c.dropWhile (!isBreak ·))
    match c.endOfLine? with
    | some c => .ok (((s.allowKey false).moveTo c).push token)
    | none => .error .malformed

/-- The start of a flow collection, which may itself be a key. -/
def openFlow (s : Lexer) (t : Token) : Except Fault Lexer := do
  let s ← s.propose
  .ok (({ s with flow := s.flow + 1, keyAllowed := true }.moveTo s.cursor.next).push t)

/-- The end of a flow collection. -/
def closeFlow (s : Lexer) (t : Token) : Except Fault Lexer := do
  let s ← s.mark t 1 false
  .ok { s with flow := s.flow - 1 }

/-- An item of a list in a block. -/
def item (s : Lexer) : Except Fault Lexer :=
  if s.inFlow then s.mark .item 1 true
  else if !s.keyAllowed then .error .malformed
  else (s.openBlock s.cursor.column s.count .blockListStart).mark .item 1 true

/-- The mark of a key. -/
def key (s : Lexer) : Except Fault Lexer :=
  if s.inFlow then s.mark .key 1 false
  else if !s.keyAllowed then .error .malformed
  else (s.openBlock s.cursor.column s.count .blockMapStart).mark .key 1 true

/-- The mark of a value.  It makes the candidate of its level a key. -/
def value (s : Lexer) : Except Fault Lexer :=
  match s.candidates.lookup s.flow with
  | some k =>
    let s := { s with candidates := s.candidates.filter fun (level, _) => level ≠ s.flow }
    let s := s.insert k.position .key
    let s := if s.inFlow then s else s.openBlock k.column k.position .blockMapStart
    .ok (((s.allowKey false).moveTo s.cursor.next).push .value)
  | none =>
    if s.inFlow then s.mark .value 1 false
    else if !s.keyAllowed then .error .malformed
    else (s.openBlock s.cursor.column s.count .blockMapStart).mark .value 1 true

/-- A scalar between quotes. -/
def quotedScalar (s : Lexer) (quote : Char) : Except Fault Lexer := do
  let s ← s.propose
  let (text, c) ← takeQuoted quote (s.cursor.rest.length + 2) s.cursor.next
  .ok (((s.allowKey false).moveTo c).push (.scalar (String.ofList text) false))

/-- A plain scalar. -/
def plainScalar (s : Lexer) : Except Fault Lexer := do
  let s ← s.propose
  let (text, crossed, c) := takePlain s.inFlow (s.indent + 1) (s.cursor.rest.length + 2) s.cursor
  .ok (((s.allowKey crossed).moveTo c).push (.scalar (String.ofList text) true))

/-- A scalar written as a block. -/
def blockScalar (s : Lexer) (folded : Bool) : Except Fault Lexer := do
  let s ← s.forgetCurrent
  let (text, c) ← takeBlock folded s.indent (s.cursor.rest.length + 2) s.cursor.next
  .ok (((s.allowKey true).moveTo c).push (.scalar (String.ofList text) false))

/-- A tag. -/
def tag (s : Lexer) : Except Fault Lexer := do
  let s ← s.propose
  let (t, c) ← takeTag s.cursor
  .ok (((s.allowKey false).moveTo c).push (.tag t))

/-- Characters no plain scalar starts with. -/
def indicators : List Char :=
  ['-', '?', ':', ',', '[', ']', '{', '}', '#', '&', '*', '!', '|', '>', '\'', '"', '%', '@', '`']

/-- Whether a plain scalar starts with `ch`, followed by `after`. -/
def startsPlain (s : Lexer) (ch : Char) (after : Option Char) : Bool :=
  (!isSpace ch && !indicators.contains ch) ||
    (!endOr isSpace after && (ch = '-' || (!s.inFlow && (ch = '?' || ch = ':'))))

/-- The next token, at the character `ch`. -/
def token (s : Lexer) (ch : Char) : Except Fault Lexer :=
  let after := s.cursor.peek? 1
  let spaced := endOr isSpace after
  let atMargin := s.cursor.column = 0
  if ch = '%' && atMargin then s.directive
  else if atMargin && s.cursor.atMark '-' then s.edge .documentStart
  else if atMargin && s.cursor.atMark '.' then s.edge .documentEnd
  else if ch = '[' then s.openFlow .listStart
  else if ch = '{' then s.openFlow .mapStart
  else if ch = ']' then s.closeFlow .listEnd
  else if ch = '}' then s.closeFlow .mapEnd
  else if ch = ',' then s.mark .comma 1 true
  else if ch = '-' && spaced then s.item
  else if ch = '?' && (s.inFlow || spaced) then s.key
  else if ch = ':' && (s.inFlow || spaced) then s.value
  else if ch = '*' then s.named .alias
  else if ch = '&' then s.named .anchor
  else if ch = '!' then s.tag
  else if ch = '|' && !s.inFlow then s.blockScalar false
  else if ch = '>' && !s.inFlow then s.blockScalar true
  else if ch = '\'' || ch = '"' then s.quotedScalar ch
  else if s.startsPlain ch after then s.plainScalar
  else .error .malformed

/-- All further tokens, in order. -/
def run : Nat → Lexer → Lexer
  | 0, s => s.push (.broken .malformed)
  | fuel + 1, s =>
    let s := toToken (s.cursor.rest.length + 1) s
    let step : Except Fault (Lexer × Bool) := do
      let s ← s.forget fun _ k => s.isStale k
      let s := s.unwindTo s.cursor.column
      match s.cursor.peek? 0 with
      | none => .ok ((← (s.unwindTo (-1)).forgetCurrent).push .textEnd, true)
      | some ch => .ok (← s.token ch, false)
    match step with
    | .error fault => s.push (.broken fault)
    | .ok (s, true) => s
    | .ok (s, false) => run fuel s

end Lexer

/-- The tokens of a text. -/
def Token.ofText (s : String) : List Token :=
  let cs := s.toList
  if cs.all isAllowed then (Lexer.run (cs.length + 2) (.start cs)).tokens.reverse
  else [.broken .malformed]

end AccessRules.Yaml
