import AccessRules.Document.Json
import AccessRules.Rule.Basic

/-!
# Engines

An engine is one way of bringing rules into effect.  A pass asks it rule by rule whether it deals
with the rule at all and then to reconcile it, between a call at the start of the pass and one at
its end.  Any of these may fail.

Engines act on their `Surroundings`: the clock, which may move on while they work, the connection to
storage, which they may lose, and a state of their own.  While they work storage may also get into
trouble, so that it cannot be written although the connection is open, and out of it again.
-/

namespace AccessRules

open Calendar

/-- What an engine works in. -/
structure Surroundings (σ : Type) where
  now : Instant
  connected : Bool
  state : σ
  /-- what is said of storage when it cannot be written for the time being -/
  trouble : Option String := none

namespace Engine

/-- What an engine says about a rule it has dealt with. -/
inductive Report where
  | nothing
  | value (v : Value)
  /-- something that cannot be written as a document -/
  | unwritable
  deriving Repr

/-- A report as it is kept with the outcome. -/
def Report.text : Report → String
  | .nothing => ""
  | .value v => Json.render .spaced v
  | .unwritable => ""

/-- A step an engine may fail at; its surroundings change either way. -/
abbrev Act (σ α : Type) := Surroundings σ → Except Failure α × Surroundings σ

/-- The step that does nothing. -/
def Act.done {σ α : Type} (a : α) : Act σ α := fun s => (.ok a, s)

end Engine

/-- One way of bringing rules into effect. -/
structure Engine (σ : Type) where
  name : String
  /-- what sort of engine it is -/
  sort : String
  begin : Engine.Act σ Unit := Engine.Act.done ()
  admits : Rule → Engine.Act σ Bool := fun _ => Engine.Act.done true
  reconcile : Rule → Engine.Act σ Engine.Report
  finish : Engine.Act σ Unit := Engine.Act.done ()

/-- An engine in a word. -/
def Engine.description {σ : Type} (e : Engine σ) : String := "<" ++ e.sort ++ ": " ++ e.name ++ ">"

end AccessRules
