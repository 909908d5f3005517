import AccessRules.Document.Misuse
import AccessRules.Settings.Basic
import AccessRules.Text.Split

/-!
# Overriding settings

Single settings can be given a new value under a path of names with points between them.  The values
are put into the document of the settings in order, and the result has to be a document of settings
again.  A null leaves a setting as it is.
-/

namespace AccessRules.Settings

/-- New values by path. -/
abbrev Overrides := List (String × Value)

/-- Overrides with a value given for a path: it replaces one that was given before, in its place. -/
def Overrides.put (path : String) (v : Value) : Overrides → Overrides
  | [] => [(path, v)]
  | (p, w) :: rest => if p == path then (p, v) :: rest else (p, w) :: put path v rest

/-- Overrides given one after the other. -/
def Overrides.ofList (given : List (String × Value)) : Overrides :=
  given.foldl (fun done (path, v) => done.put path v) []

/-- The names of a path. -/
def pathOf (key : String) : List String := (Text.split '.' key.toList).map String.ofList

/-- A document with a value put at a path; maps that are missing on the way are made. -/
def assign (v : Value) : List String → Value → Except Failure Value
  | [], target => .ok target
  | [leaf], .map es => .ok (.map (Value.put (.text leaf) v es))
  | [_], v => .error (.noAssignment v)
  | part :: rest, .map es => do
    let inner ← assign v rest ((Value.lookup (.text part) es).getD (.map []))
    .ok (.map (Value.put (.text part) inner es))
  | _ :: _, v => .error (.noMembers v "setdefault")

/-- A document after one override. -/
def assignOne (target : Value) (override : String × Value) : Except Failure Value :=
  match override.2 with
  | .null => .ok target
  | v => assign v (pathOf override.1) target

/-- Settings after overrides. -/
def override (s : Settings) (overrides : Overrides) : Except Failure Settings := do
  let v ← overrides.foldlM assignOne s.document
  match (read v).reported schema with
  | .ok s => .ok s
  | .error report => .error (.mismatch report)

end AccessRules.Settings
