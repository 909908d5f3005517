import AccessRules.Endpoint.Network
import AccessRules.Number.Decimal
import AccessRules.Text.Quoted

/-!
# Addresses of resources on the web

An address is a scheme, an authority (user, host and port number), a path, and perhaps a query and a
fragment.  It is kept in normal form: scheme and host in lower case, the port left out where it is
the one of the scheme, segments `.` and `..` of a path resolved, and every character that may not
stand in its place written by its UTF-8 bytes.

`parse` reads an address, `text` writes it, `target` is what a request line asks for, and
`below` is the address of a path below another address.
-/

namespace AccessRules.Http

open Text

/-! ## Escapes -/

/-- A byte as an escape. -/
def escapeByte (b : UInt8) : List Char :=
  '%' :: (fixedHex 2 b.toNat).map Char.toUpper

/-- A character as itself where it may stand, otherwise by its bytes. -/
def escapeChar (safe : Char → Bool) (c : Char) : List Char :=
  if safe c then [c] else (String.ofList [c]).toUTF8.toList.flatMap escapeByte

/-- A text with every character escaped that may not stand there; escapes that are in it already
stay. -/
def escape (safe : Char → Bool) (cs : List Char) : List Char := cs.flatMap (escapeChar safe)

/-- A character of ASCII that prints, the blank included. -/
def isGraphic (c : Char) : Bool := 0x20 ≤ c.toNat && c.toNat < 0x7f

def safeInFragment (c : Char) : Bool := isGraphic c && !" \"<>`".toList.contains c

def safeInQuery (c : Char) : Bool := isGraphic c && !" \"#<>".toList.contains c

def safeInPath (c : Char) : Bool := safeInQuery c && !"?`\x7b\x7d".toList.contains c

def safeInUser (c : Char) : Bool := safeInPath c && !"/;=@[\\]^|".toList.contains c

/-- An ASCII letter. -/
def isLetter (c : Char) : Bool := c.isAlpha

def safeInHost (c : Char) : Bool :=
  isLetter c || isDigit c || "-._~!$&'()*+,;=\"`\x7b\x7d%|\\".toList.contains c

/-! ## Addresses -/

/-- Why a text is no address. -/
inductive Flaw where
  | tooLong
  | partTooLong (part : String)
  | unprintable (c : Char) (offset : Nat)
  | badNumber (s : String)
  | badHost4 (s : String)
  | badHost6 (s : String)
  | foreignHost (s : String)
  | rootlessPath
  | doubleSlash
  | leadingColon
  deriving DecidableEq, Repr

/-- What a flaw says. -/
def Flaw.message : Flaw → String
  | .tooLong => "URL too long"
  | .partTooLong part => "URL component '" ++ part ++ "' too long"
  | .unprintable c offset =>
    "Invalid non-printable ASCII character in URL, " ++ quoted (String.ofList [c]) ++
      " at position " ++ toString offset ++ "."
  | .badNumber s => "Invalid port: " ++ quoted s
  | .badHost4 s => "Invalid IPv4 address: " ++ quoted s
  | .badHost6 s => "Invalid IPv6 address: " ++ quoted s
  | .foreignHost s => "Invalid IDNA hostname: " ++ quoted s
  | .rootlessPath => "For absolute URLs, path must be empty or begin with '/'"
  | .doubleSlash => "Relative URLs cannot have a path starting with '//'"
  | .leadingColon => "Relative URLs cannot have a path starting with ':'"

/-- An address in normal form. -/
structure Address where
  scheme : List Char
  user : List Char
  host : List Char
  number : Option Int
  path : List Char
  query : Option (List Char)
  fragment : Option (List Char)
  deriving DecidableEq, Repr

namespace Address

/-- The most characters of an address, and of each of its parts. -/
def maxLength : Nat := 65536

/-- A control character of ASCII. -/
def isControl (c : Char) : Bool := c.toNat < 0x20 || c.toNat = 0x7f

/-- A character of a scheme after its first. -/
def isSchemeChar (c : Char) : Bool := isLetter c || isDigit c || "+.-".toList.contains c

/-- The scheme before a colon at the start of a text, and the rest. -/
def takeScheme (cs : List Char) : List Char × List Char :=
  match cs with
  | ':' :: rest => ([], rest)
  | c :: _ =>
    if isLetter c then
      match cs.dropWhile isSchemeChar with
      | ':' :: rest => (cs.takeWhile isSchemeChar, rest)
      | _ => ([], cs)
    else ([], cs)
  | [] => ([], [])

/-- The authority after two slashes at the start of a text, and the rest. -/
def takeAuthority : List Char → List Char × List Char
  | '/' :: '/' :: rest =>
    let inside (c : Char) : Bool := !"/?#".toList.contains c
    (rest.takeWhile inside, rest.dropWhile inside)
  | cs => ([], cs)

/-- The user before the last `@` of an authority, and the rest. -/
def takeUser (cs : List Char) : List Char × List Char :=
  if cs.contains '@' then
    let back := cs.reverse
    (((back.dropWhile (· != '@')).drop 1).reverse, (back.takeWhile (· != '@')).reverse)
  else ([], cs)

/-- The host at the start of an authority without user, and the rest.  A host in brackets ends with
the last of them. -/
def takeHost (cs : List Char) : List Char × List Char :=
  if cs.head? == some '[' && cs.contains ']' then
    let back := cs.reverse
    ((back.dropWhile (· != ']')).reverse, (back.takeWhile (· != ']')).reverse)
  else (cs.takeWhile (· != ':'), cs.dropWhile (· != ':'))

/-- Whether a text is runs of digits with `gaps` single characters, of any sort, between them; the
first character has been read as a digit. -/
def afterDigit : Nat → List Char → Bool
  | gaps, [] => gaps == 0
  | 0, c :: cs => isDigit c && afterDigit 0 cs
  | gaps + 1, c :: cs =>
    (isDigit c && afterDigit (gaps + 1) cs) ||
      (match cs with
        | d :: cs => isDigit d && afterDigit gaps cs
        | [] => false)

/-- Whether a host looks like four numbers. -/
def looksNumeric : List Char → Bool
  | c :: cs => isDigit c && afterDigit 3 cs
  | [] => false

/-- A host in normal form. -/
def normalHost (cs : List Char) : Except Flaw (List Char) :=
  if cs.isEmpty then .ok []
  else if looksNumeric cs then
    if (Network.address4? cs).isSome then .ok cs else .error (.badHost4 (String.ofList cs))
  else if cs.head? == some '[' && cs.getLast? == some ']' then
    let inner := (cs.drop 1).dropLast
    if (Network.address6? inner).isSome then .ok inner else .error (.badHost6 (String.ofList cs))
  else if cs.all fun c => c.toNat < 0x80 then .ok (escape safeInHost (cs.map Char.toLower))
  else .error (.foreignHost (String.ofList cs))

/-- The port number of a scheme. -/
def standardNumber? (scheme : List Char) : Option Int :=
  ([("ftp", 21), ("http", 80), ("https", 443), ("ws", 80), ("wss", 443)].lookup
    (String.ofList scheme))

/-- A number as an authority may give it. -/
def number? (cs : List Char) : Option Int :=
  let blank (c : Char) : Bool := c = ' '
  let cs := ((cs.dropWhile blank).reverse.dropWhile blank).reverse
  let (negative, body) := Decimal.takeSign cs
  (Decimal.dropUnderscores? body).bind fun digits =>
    if !digits.isEmpty && digits.all isDigit then some (Decimal.signed negative digits) else none

/-- A port number in normal form: none where it is the one of the scheme. -/
def normalNumber (scheme cs : List Char) : Except Flaw (Option Int) :=
  if cs.isEmpty then .ok none
  else match number? cs with
    | some n => .ok (if standardNumber? scheme = some n then none else some n)
    | none => .error (.badNumber (String.ofList cs))

/-- Segments of a path with `.` left out and `..` taking back the segment before it; the empty
segment before the first slash cannot be taken back. -/
def resolveSegments (segments : List (List Char)) : List (List Char) :=
  segments.foldl (fun done s =>
    if s = ['.'] then done
    else if s = ['.', '.'] then (if done = [[]] then done else done.dropLast)
    else done ++ [s]) []

/-- A path with its segments resolved. -/
def normalPath (path : List Char) : List Char :=
  ['/'].intercalate (resolveSegments (split '/' path))

/-- Why a path may not stand after what comes before it. -/
def pathFlaw? (hasScheme hasAuthority : Bool) (path : List Char) : Option Flaw :=
  if hasAuthority && !path.isEmpty && path.head? != some '/' then some .rootlessPath
  else if !hasScheme && !hasAuthority then
    if path.take 2 = ['/', '/'] then some .doubleSlash
    else if path.head? = some ':' then some .leadingColon
    else none
  else none

/-- An address of its parts. -/
def ofParts (scheme authority path : List Char) (query fragment : Option (List Char)) :
    Except Flaw Address := do
  let (user, rest) := takeUser authority
  let (host, rest) := takeHost rest
  let numberText := match rest with
    | ':' :: rest => rest
    | rest => rest
  let user := escape safeInUser user
  let host ← normalHost host
  let number ← normalNumber scheme numberText
  let hasScheme := !scheme.isEmpty
  let hasAuthority := !user.isEmpty || !host.isEmpty || number.isSome
  match pathFlaw? hasScheme hasAuthority path with
  | some flaw => .error flaw
  | none =>
    let path := if hasScheme || hasAuthority then normalPath path else path
    .ok ⟨scheme.map Char.toLower, user, host, number, escape safeInPath path,
      query.map (escape safeInQuery), fragment.map (escape safeInFragment)⟩

/-- The first flaw of the characters of a text that is to be an address. -/
def textFlaw? (cs : List Char) : Option Flaw :=
  if maxLength < cs.length then some .tooLong
  else match cs.findIdx? isControl with
    | some i => some (.unprintable (cs.getD i ' ') i)
    | none => none

/-- The address a text stands for. -/
def parse (s : String) : Except Flaw Address :=
  let cs := s.toList
  match textFlaw? cs with
  | some flaw => .error flaw
  | none =>
    let (scheme, rest) := takeScheme cs
    let (authority, rest) := takeAuthority rest
    let (rest, fragment) := cut '#' rest
    let (path, query) := cut '?' rest
    ofParts scheme authority path query fragment

/-- User, host and port number as they stand in the text of an address. -/
def authority (a : Address) : List Char :=
  (if a.user.isEmpty then [] else a.user ++ ['@']) ++
    (if a.host.contains ':' then '[' :: a.host ++ [']'] else a.host) ++
    (match a.number with
      | some n => ':' :: (toString n).toList
      | none => [])

/-- The address as text. -/
def text (a : Address) : String :=
  String.ofList ((if a.scheme.isEmpty then [] else a.scheme ++ [':']) ++
    (if a.authority.isEmpty then [] else '/' :: '/' :: a.authority) ++ a.path ++
    (match a.query with
      | some q => '?' :: q
      | none => []) ++
    (match a.fragment with
      | some f => '#' :: f
      | none => []))

/-- What a request for the address asks its host for: the path and the query. -/
def target (a : Address) : List Char :=
  (if a.path.isEmpty then ['/'] else a.path) ++
    (match a.query with
      | some q => '?' :: q
      | none => [])

/-- The first of some parts, each with its name, that is too long to be put into an address. -/
def longPart? (parts : List (String × List Char)) : Option Flaw :=
  (parts.find? fun p => maxLength < p.2.length).map fun p => .partTooLong p.1

/-- The address with another target. -/
def withTarget (a : Address) (target : List Char) : Except Flaw Address :=
  let (path, query) := cut '?' target
  let parts := [("scheme", a.scheme), ("authority", a.authority), ("path", path),
    ("query", query.getD []), ("fragment", a.fragment.getD [])]
  match longPart? parts with
  | some flaw => .error flaw
  | none => ofParts a.scheme a.authority path query a.fragment

/-- The address as one that others lie below: its target ends with a slash. -/
def asBase (a : Address) : Except Flaw Address :=
  if a.target.getLast? == some '/' then .ok a else a.withTarget (a.target ++ ['/'])

/-- The address of `path` below a base. -/
def below (base : Address) (path : String) : Except Flaw Address := do
  let relative ← parse path
  base.withTarget (base.target ++ relative.target.dropWhile (· == '/'))

example : ((do (← (← parse "HTTP://Host:80/api").asBase).below "/apps/my app").map text).toOption =
    some "http://host/api/apps/my%20app" := by decide +kernel

end Address

end AccessRules.Http
