import AccessRules.Text.Unprintable

/-!
# Quoted text

Texts that messages quote.  A text stands between single quotes, or between double quotes when it
holds a single quote and no double one.  The quote in use and the backslash are escaped, line
breaks and tabs have their short escapes, and every other character that does not print is written
by its number, with as few of 2, 4 or 8 hexadecimal digits as hold it.
-/

namespace AccessRules.Text

/-- The hexadecimal digit of `n`, taken modulo sixteen. -/
def hexDigit (n : Nat) : Char :=
  let k := n % 16
  if k < 10 then Char.ofNat (48 + k) else Char.ofNat (87 + k)

/-- The last `w` hexadecimal digits of `n`. -/
def fixedHex : Nat → Nat → List Char
  | 0, _ => []
  | w + 1, n => fixedHex w (n / 16) ++ [hexDigit n]

/-- A character by its number. -/
def numberEscape (c : Char) : List Char :=
  let n := c.toNat
  if n < 0x100 then '\\' :: 'x' :: fixedHex 2 n
  else if n < 0x10000 then '\\' :: 'u' :: fixedHex 4 n
  else '\\' :: 'U' :: fixedHex 8 n

/-- One character of a quoted text. -/
def quoteChar (quote c : Char) : List Char :=
  if c = quote || c = '\\' then ['\\', c]
  else if c = '\n' then ['\\', 'n']
  else if c = '\r' then ['\\', 'r']
  else if c = '\t' then ['\\', 't']
  else if isPrintable c then [c]
  else numberEscape c

/-- The quotes a text is put between. -/
def quoteFor (cs : List Char) : Char :=
  if cs.contains '\'' && !cs.contains '"' then '"' else '\''

/-- The text between quotes. -/
def quoted (s : String) : String :=
  let cs := s.toList
  let q := quoteFor cs
  String.ofList (q :: cs.flatMap (quoteChar q) ++ [q])

end AccessRules.Text
