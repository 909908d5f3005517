/-!
# Tokens of a YAML text

What a YAML text is made of, the blocks that indentation forms being marked by tokens of their own.
A text that cannot be read to its end has the tokens up to there, and then `broken` with what is
wrong.
-/

namespace AccessRules.Yaml

/-- What may be wrong with a YAML text. -/
inductive Fault where
  /-- it is no YAML, or none that stands for a document -/
  | malformed
  /-- a scalar does not have the value its form promises -/
  | badValue (message : String)
  /-- a word that is no truth value -/
  | unknownWord (word : String)
  /-- a text that is no moment where one is promised -/
  | noMoment
  /-- an empty text where a number is promised -/
  | emptyNumber
  deriving DecidableEq, Repr

/-- A tag as written: the handle before its last `!`, unless it is given in full, and the rest. -/
structure Tag where
  handle : Option String
  suffix : String
  deriving DecidableEq, Repr

inductive Token where
  | version (major : Nat)
  | tagHandle (handle start : String)
  | otherDirective
  | documentStart
  | documentEnd
  | blockListStart
  | blockMapStart
  | blockEnd
  | listStart
  | listEnd
  | mapStart
  | mapEnd
  | comma
  | item
  | key
  | value
  | alias (name : String)
  | anchor (name : String)
  | tag (tag : Tag)
  | scalar (text : String) (plain : Bool)
  | textEnd
  | broken (fault : Fault)
  deriving DecidableEq, Repr

end AccessRules.Yaml
