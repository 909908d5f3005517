import AccessRules.Document.Shown
import AccessRules.Fault

/-!
# Misused documents

Failures of operations that were handed a document of the wrong shape: something without parts where
parts were wanted, something without members where a member was wanted.  Each names the sort of
document it was given.
-/

namespace AccessRules

/-- What a sort of document is called in messages. -/
def Scalar.sort : Scalar → String
  | .null => "NoneType"
  | .bool _ => "bool"
  | .int _ => "int"
  | .float _ => "float"
  | .text _ => "str"
  | .bytes _ => "bytes"
  | .date _ => "datetime.date"
  | .moment _ => "datetime.datetime"

/-- What a sort of document is called in messages. -/
def Value.sort : Value → String
  | .scalar s => s.sort
  | .list _ => "list"
  | .map _ => "dict"

/-- The parts of a document that has parts: the items of a list, the keys of a map, the characters
of a text. -/
def Value.parts? : Value → Option (List Value)
  | .list items => some items
  | .map entries => some (entries.map fun e => .scalar e.1)
  | .text s => some (s.toList.map fun c => .text (String.ofList [c]))
  | .scalar (.bytes bs) => some (bs.map fun b => .int b.toNat)
  | _ => none

namespace Failure

/-- A document without parts was asked for them. -/
def noParts (v : Value) : Failure := .wrongType (Text.quoted v.sort ++ " object is not iterable")

/-- A document that is no map was asked for something only maps do. -/
def noMembers (v : Value) (operation : String) : Failure :=
  .noAttribute (Text.quoted v.sort ++ " object has no attribute " ++ Text.quoted operation)

/-- A member was to be set in a document that has none. -/
def noAssignment (v : Value) : Failure :=
  .wrongType (match v with
    | .list _ => "list indices must be integers or slices, not str"
    | v => Text.quoted v.sort ++ " object does not support item assignment")

/-- A member was asked of a document by name, and it has none. -/
def noSubscript (v : Value) : Failure :=
  .wrongType (match v with
    | .list _ => "list indices must be integers or slices, not str"
    | .text _ => "string indices must be integers, not 'str'"
    | v => Text.quoted v.sort ++ " object is not subscriptable")

end Failure

/-- The parts of a document, or the failure of one that has none. -/
def Value.parts (v : Value) : Except Failure (List Value) :=
  match v.parts? with
  | some parts => .ok parts
  | none => .error (.noParts v)

end AccessRules
