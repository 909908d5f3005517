import AccessRules.Document.Value
import AccessRules.Number.Shortest
import AccessRules.Text.Quoted

/-!
# Documents written as JSON

One printer serves every place where a document becomes JSON; a `Style` says how items are
separated, whether keys are sorted and whether characters beyond ASCII are escaped.

- `Style.canonical` is the form by which endpoints are told apart: nothing optional, keys sorted.
- `Style.spaced` is the form in which outcomes are kept and texts are quoted in messages.
- `Style.compact` is the form of a response body.
-/

namespace AccessRules.Json

open Text

/-- How a document is written. -/
structure Style where
  /-- between two items -/
  itemGap : String
  /-- between a key and its value -/
  keyGap : String
  /-- characters beyond ASCII are escaped -/
  asciiOnly : Bool
  /-- the entries of a map are written in the order of their keys -/
  sortedKeys : Bool

/-- No blanks, sorted keys, ASCII only. -/
def Style.canonical : Style := ⟨",", ":", true, true⟩

/-- A blank after each separator, entries in their own order, ASCII only. -/
def Style.spaced : Style := ⟨", ", ": ", true, false⟩

/-- No blanks, entries in their own order, all characters as they are. -/
def Style.compact : Style := ⟨",", ":", false, false⟩

/-- An escape by number, four hexadecimal digits. -/
def unitEscape (n : Nat) : List Char := '\\' :: 'u' :: fixedHex 4 n

/-- The escape of any character: one unit, or a pair of them beyond the first 2^16 characters. -/
def charEscape (c : Char) : List Char :=
  let n := c.toNat
  if n < 0x10000 then unitEscape n
  else unitEscape (0xd800 + (n - 0x10000) / 0x400) ++ unitEscape (0xdc00 + (n - 0x10000) % 0x400)

/-- One character of a JSON string. -/
def stringChar (asciiOnly : Bool) (c : Char) : List Char :=
  if c = '"' then ['\\', '"']
  else if c = '\\' then ['\\', '\\']
  else if c = '\n' then ['\\', 'n']
  else if c = '\r' then ['\\', 'r']
  else if c = '\t' then ['\\', 't']
  else if c = '\x08' then ['\\', 'b']
  else if c = '\x0c' then ['\\', 'f']
  else if c.toNat < 0x20 then charEscape c
  else if asciiOnly && 0x7f ≤ c.toNat then charEscape c
  else [c]

/-- A text as a JSON string. -/
def string (asciiOnly : Bool) (s : String) : String :=
  String.ofList ('"' :: s.toList.flatMap (stringChar asciiOnly) ++ ['"'])

/-- A floating-point number as JSON writers spell it, with words for the values JSON lacks. -/
def number : Binary64 → String
  | .nan => "NaN"
  | .infinite neg => if neg then "-Infinity" else "Infinity"
  | x => x.text

/-- A moment as JSON keeps it: its text with a blank between date and time. -/
def momentText (m : Calendar.Moment) : String := m.iso.replace "T" " "

/-- A scalar as the text that stands for it as a key. -/
def keyText : Scalar → String
  | .null => "null"
  | .bool b => if b then "true" else "false"
  | .int n => toString n
  | .float x => number x
  | .text s => s
  | .bytes bs => String.ofList (bs.map fun b => Char.ofNat b.toNat)
  | .date d => String.ofList (Calendar.Moment.dateText d)
  | .moment m => momentText m

/-- A scalar as JSON. -/
def scalar (asciiOnly : Bool) : Scalar → String
  | .null => "null"
  | .bool b => if b then "true" else "false"
  | .int n => toString n
  | .float x => number x
  | s => string asciiOnly (keyText s)

/-- Entries joined into an object. -/
def object (style : Style) (entries : List (String × String)) : String :=
  let entries := if style.sortedKeys then entries.mergeSort (fun a b => a.1 ≤ b.1) else entries
  "\x7b" ++ style.itemGap.intercalate
    (entries.map fun (k, v) => string style.asciiOnly k ++ style.keyGap ++ v) ++ "\x7d"

mutual

/-- A document as JSON. -/
def render (style : Style) : Value → String
  | .scalar s => scalar style.asciiOnly s
  | .list items => "[" ++ style.itemGap.intercalate (renderItems style items) ++ "]"
  | .map entries => object style (renderEntries style entries)

/-- The items of a list, each as JSON. -/
def renderItems (style : Style) : List Value → List String
  | [] => []
  | v :: rest => render style v :: renderItems style rest

/-- The entries of a map: each key as text and each value as JSON. -/
def renderEntries (style : Style) : List (Scalar × Value) → List (String × String)
  | [] => []
  | (k, v) :: rest => (keyText k, render style v) :: renderEntries style rest

end

end AccessRules.Json
