import AccessRules.Document.Value

/-!
# Checked reading of documents

Reading a document into a typed value either passes or fails with all the issues found, each with
the path to the part that caused it.  `Check` is that result; its applicative structure collects the
issues of both sides in order, which is how a record reports every bad field at once.
-/

namespace AccessRules.Schema

/-- What is wrong with one part of a document. -/
inductive Problem where
  | missing
  | unknownKey
  | keyNotText
  | notRecord
  | notText
  | textTooShort
  | textNotUnicode
  | notBool
  | unreadableBool
  | notInt
  | unreadableInt
  | fractionalInt
  | notFinite
  | oversizedInt
  | notFloat
  | unreadableFloat
  | notAbove
  | belowLeast
  | aboveGreatest
  | notList
  | notMap
  | notMoment
  | unreadableMoment
  | momentOutOfRange
  deriving DecidableEq, Repr

/-- The code under which a problem is reported. -/
def Problem.code : Problem → String
  | .missing => "missing"
  | .unknownKey => "extra_forbidden"
  | .keyNotText => "invalid_key"
  | .notRecord => "model_type"
  | .notText => "string_type"
  | .textTooShort => "string_too_short"
  | .textNotUnicode => "string_unicode"
  | .notBool => "bool_type"
  | .unreadableBool => "bool_parsing"
  | .notInt => "int_type"
  | .unreadableInt => "int_parsing"
  | .fractionalInt => "int_from_float"
  | .notFinite => "finite_number"
  | .oversizedInt => "int_parsing_size"
  | .notFloat => "float_type"
  | .unreadableFloat => "float_parsing"
  | .notAbove => "greater_than"
  | .belowLeast => "greater_than_equal"
  | .aboveGreatest => "less_than_equal"
  | .notList => "list_type"
  | .notMap => "dict_type"
  | .notMoment => "datetime_type"
  | .unreadableMoment => "datetime_from_date_parsing"
  | .momentOutOfRange => "datetime_parsing"

/-- The least whole number beyond those of 64 bits with a sign. -/
def wordLimit : Int := 0x8000000000000000

/-- One step of a path into a document. -/
inductive Step where
  | name (s : String)
  | index (n : Int)
  deriving DecidableEq, Repr

/-- A problem and the path to it. -/
structure Issue where
  problem : Problem
  path : List Step
  deriving DecidableEq, Repr

/-- The result of reading a document: a value, or every issue found. -/
inductive Check (α : Type) where
  | pass (a : α)
  | fail (issues : List Issue)
  deriving Repr

namespace Check

variable {α β : Type}

/-- A failure at the top of the document. -/
def issue (p : Problem) : Check α := .fail [⟨p, []⟩]

def issues : Check α → List Issue
  | .pass _ => []
  | .fail is => is

def value? : Check α → Option α
  | .pass a => some a
  | .fail _ => none

def map (f : α → β) : Check α → Check β
  | .pass a => .pass (f a)
  | .fail is => .fail is

/-- Both sides are read; the issues of the first come before those of the second. -/
def seq : Check (α → β) → Check α → Check β
  | .pass f, .pass a => .pass (f a)
  | .pass _, .fail is => .fail is
  | .fail is, c => .fail (is ++ c.issues)

instance : Applicative Check where
  pure := .pass
  map := map
  seq f a := seq f (a ())

/-- Continues with the value of a check that passed. -/
def andThen (c : Check α) (f : α → Check β) : Check β :=
  match c with
  | .pass a => f a
  | .fail is => .fail is

/-- Adds a step in front of the path of every issue. -/
def under (s : Step) : Check α → Check α
  | .pass a => .pass a
  | .fail is => .fail (is.map fun i => ⟨i.problem, s :: i.path⟩)

/-- Fails with further issues after those of the check, if there are any. -/
def withIssues (c : Check α) (more : List Issue) : Check α :=
  match c, more with
  | .pass a, [] => .pass a
  | .pass _, more => .fail more
  | .fail is, more => .fail (is ++ more)

/-- A check that passes, with the condition a further test lays on its value. -/
def ensure (c : Check α) (ok : α → Bool) (p : Problem) : Check α :=
  c.andThen fun a => if ok a then .pass a else issue p

@[simp] theorem withIssues_nil (c : Check α) : c.withIssues [] = c := by
  cases c <;> simp [withIssues]

@[simp] theorem under_pass (s : Step) (a : α) : (Check.pass a).under s = .pass a := rfl

end Check

/-- The issues of a document that does not fit a schema, under the name of that schema. -/
structure Report where
  schema : String
  issues : List Issue
  deriving DecidableEq, Repr

/-- The first line of a report: how many issues, and in what. -/
def Report.headline (r : Report) : String :=
  let n := r.issues.length
  toString n ++ " validation error" ++ (if n = 1 then "" else "s") ++ " for " ++ r.schema

/-- A reader of documents. -/
abbrev Reader (α : Type) := Value → Check α

/-- The result of a reader, its issues reported under the name of a schema. -/
def Check.reported {α : Type} (schema : String) : Check α → Except Report α
  | .pass a => .ok a
  | .fail is => .error ⟨schema, is⟩

end AccessRules.Schema
