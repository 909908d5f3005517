import AccessRules.Calendar.Duration
import AccessRules.Document.Value

/-!
# Reading documents without a schema

Parts of a document by name and by type, where a part that is missing or of another type counts as
empty.  This is for documents whose shape is agreed on; what comes from outside is read by a schema,
which says what is wrong with it.
-/

namespace AccessRules.Value

open Calendar

/-- A member of a map, null when it is not there. -/
def member (v : Value) (key : String) : Value := (v.get? key).getD .null

/-- A text. -/
def text? : Value → Option String
  | .text s => some s
  | _ => none

/-- A text, or the empty one. -/
def asText (v : Value) : String := v.text?.getD ""

/-- A truth value, or false. -/
def asBool : Value → Bool
  | .bool b => b
  | _ => false

/-- The integer a number or a truth value is. -/
def int? : Value → Option Int
  | .int n => some n
  | .bool b => some (Scalar.boolInt b)
  | .float x => x.toInt?
  | _ => none

/-- An integer, or zero. -/
def asInt (v : Value) : Int := v.int?.getD 0

/-- The items of a list. -/
def asItems : Value → List Value
  | .list xs => xs
  | _ => []

/-- The entries of a map. -/
def asEntries (v : Value) : List (Scalar × Value) := v.entries?.getD []

/-- A scalar, or null. -/
def asScalar : Value → Scalar
  | .scalar s => s
  | _ => .null

/-- The duration of a number of seconds, unless it is too long for one. -/
def duration? : Value → Option Duration
  | .int n => Duration.ofInt? n
  | .bool b => Duration.ofInt? (Scalar.boolInt b)
  | .float x => Duration.ofSeconds? x
  | _ => none

/-- The member of a map that was put there is found. -/
@[simp] theorem member_map_put (key : String) (v : Value) (es : List (Scalar × Value)) :
    (Value.map (put (.text key) v es)).member key = v := by
  simp [member, get?, entries?]

end AccessRules.Value
