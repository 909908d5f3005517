import AccessRules.Text.Split

/-!
# Names of endpoints

Three kinds of name occur in endpoints and rules, each checked in one pass over its characters:

- a *workload name* names an app or a job: a lower-case letter and at most 39 more letters, digits
  or hyphens;
- a *domain* is a sequence of labels with points between them, of at most 253 characters;
- a *label* of at most 63 characters starts with a letter.

A label is made of lower-case letters, digits and hyphens and neither starts nor ends with a
hyphen.  A line break at the very end of a name is overlooked, but counts towards its length.
-/

namespace AccessRules.Name

open Text

/-- A lower-case ASCII letter. -/
def isLetter (c : Char) : Bool := 97 ≤ c.toNat && c.toNat ≤ 122

/-- A lower-case ASCII letter or a digit. -/
def isLetterOrDigit (c : Char) : Bool := isLetter c || (48 ≤ c.toNat && c.toNat ≤ 57)

/-- The longest name of an app or a job. -/
def maxWorkload : Nat := 40

/-- The longest domain. -/
def maxDomain : Nat := 253

/-- The longest label that stands alone. -/
def maxLabel : Nat := 63

/-- Where a scan of labels stands. -/
inductive Place where
  /-- a label has to start -/
  | start
  /-- after a letter or digit -/
  | inside
  /-- after a hyphen -/
  | hyphen
  deriving DecidableEq, Repr

/-- Whether `cs` completes a sequence of labels that has been read up to `place`.  Points are taken
between labels only if `points` is true. -/
def completes (points : Bool) : Place → List Char → Bool
  | place, [] => place == .inside
  | place, c :: cs =>
    if isLetterOrDigit c then completes points .inside cs
    else if c = '-' then place != .start && completes points .hyphen cs
    else if c = '.' then points && place == .inside && completes points .start cs
    else false

/-- The name of an app or a job. -/
def isWorkload (s : String) : Bool :=
  match dropFinalNewline s.toList with
  | [] => false
  | c :: cs => isLetter c && cs.length < maxWorkload && cs.all fun c => isLetterOrDigit c || c == '-'

/-- What may be wrong with a domain. -/
inductive DomainFlaw where
  | tooLong
  | badForm
  deriving DecidableEq, Repr

def DomainFlaw.message : DomainFlaw → String
  | .tooLong => "must be no more than " ++ toString maxDomain ++ " characters"
  | .badForm =>
    "a lowercase RFC 1123 subdomain must consist of lower case alphanumeric characters, '-' or '.', " ++
      "and must start and end with an alphanumeric character"

/-- Everything that is wrong with a text as a domain. -/
def domainFlaws (s : String) : List DomainFlaw :=
  (if maxDomain < s.length then [.tooLong] else []) ++
    (if completes true .start (dropFinalNewline s.toList) then [] else [.badForm])

/-- The messages of all flaws of a domain. -/
def domainProblems (s : String) : List String := (domainFlaws s).map DomainFlaw.message

/-- A label that starts with a letter. -/
def isLabel (s : String) : Bool :=
  decide (s.length ≤ maxLabel) &&
    match dropFinalNewline s.toList with
    | [] => false
    | c :: cs => isLetter c && completes false .inside cs

end AccessRules.Name
