import AccessRules.Document.Value

/-!
# Merge patches

A merge patch says how one document is turned into another: a member that is null removes, a member
that is a map is merged into what stands there, and anything else replaces it.

`create` finds the least patch between two maps and `apply` carries a patch out.  Values count as
changed when they are not equal by value.  A null inside the wanted document cannot be told apart
from a removal, so `apply` leads to the wanted document exactly when every null it has outside lists
was there before.
-/

namespace AccessRules.MergePatch

/-- The entries of a map. -/
abbrev Entries := List (Scalar × Value)

/-- A removal for each entry that is gone. -/
def removals (before after : Entries) : Entries :=
  (before.filter fun e => (Value.lookup e.1 after).isNone).map fun e => (e.1, .null)

mutual

/-- What a patch holds for a member that was `before`, if it has changed. -/
def change? (before : Value) : Value → Option Value
  | .map after =>
    match before with
    | .map es =>
      let nested := removals es after ++ changes es after
      if nested.isEmpty then none else some (.map nested)
    | _ => some (.map after)
  | after => if before.same after then none else some after

/-- The changed and the new entries. -/
def changes (before : Entries) : Entries → Entries
  | [] => []
  | (key, after) :: rest =>
    let entry := match Value.lookup key before with
      | none => some after
      | some before => change? before after
    match entry with
      | none => changes before rest
      | some v => (key, v) :: changes before rest

end

/-- The least patch that turns `before` into `after`. -/
def create (before after : Entries) : Entries :=
  removals before after ++ changes before after

/-- Whether a value removes the member it is given for. -/
def isRemoval : Value → Bool
  | .scalar .null => true
  | _ => false

mutual

/-- A value after a patch. -/
def apply (target : Value) : Value → Value
  | .map patch => .map (applyEntries (target.entries?.getD []) patch)
  | patch => patch

/-- The entries of a map after the entries of a patch. -/
def applyEntries (target : Entries) : Entries → Entries
  | [] => target
  | (key, patch) :: rest =>
    if isRemoval patch then applyEntries (Value.erase key target) rest
    else
      let before := (Value.lookup key target).getD .null
      applyEntries (Value.put key (apply before patch) target) rest

end

end AccessRules.MergePatch
