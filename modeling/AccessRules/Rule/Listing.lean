import AccessRules.Document.Misuse
import AccessRules.Document.Yaml.Reader
import AccessRules.Rule.Basic

/-!
# Lists of rules in documents

Rules are handed in as a YAML text that holds a list of them, or a map with such a list under
`rules`.  A blank document holds no rules.
-/

namespace AccessRules.Rule

open Calendar

/-- The name of a rule's schema. -/
def schema : String := "Rule"

/-- A rule of a document, as an operation that may fail. -/
def ofDocument (now : Instant) (v : Value) : Except Failure Rule :=
  match (read now v).reported schema with
  | .ok r => .ok r
  | .error report => .error (.mismatch report)

/-- The rules of a document.  The first that does not fit is the failure. -/
def listOf (now : Instant) (v : Value) : Except Failure (List Rule) :=
  let v := match v with
    | .map es => (Value.lookup (.text "rules") es).getD (.list [])
    | v => v
  if v.isBlank then .ok []
  else do (← v.parts).mapM (ofDocument now)

/-- The rules of a YAML text. -/
def ofYaml (now : Instant) (s : String) : Except Failure (List Rule) := do
  listOf now (← Yaml.parse s)

end AccessRules.Rule
