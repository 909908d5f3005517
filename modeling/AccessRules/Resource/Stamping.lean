import AccessRules.Document.Misuse
import AccessRules.Resource.MergePatch
import AccessRules.Resource.Stamp

/-!
# Stamping resources

The stamp of a resource is one of its annotations, which are a member of its metadata.  Where
metadata or annotations are missing they count as empty, and stamping makes them.  `change?` is the
merge patch that stamps a resource, if its stamp is stale.
-/

namespace AccessRules.Stamp

open Calendar

/-- A member of a map, or the failure of a document that is none. -/
def member (v : Value) (name : String) : Except Failure (Option Value) :=
  match v with
  | .map es => .ok (Value.lookup (.text name) es)
  | v => .error (.noMembers v "get")

/-- A member, an empty map standing for one that is missing or blank. -/
def memberOrEmpty (v : Value) (name : String) : Except Failure Value :=
  (member v name).map fun found =>
    match found with
    | some w => if w.isBlank then .map [] else w
    | none => .map []

/-- A stamp as it was found: nothing if blank. -/
def textOf? : Option Value → Except Failure (Option String)
  | none => .ok none
  | some (.text s) => .ok (some s)
  | some v =>
    if v.isBlank then .ok none
    else .error (.wrongType ("expected string or bytes-like object, got " ++ Text.quoted v.sort))

/-- The stamp of a resource. -/
def current (resource : Value) : Except Failure (Option String) := do
  let metadata ← memberOrEmpty resource "metadata"
  let annotations ← memberOrEmpty metadata "annotations"
  textOf? (← member annotations annotation)

/-- A map with one of its members changed; `change` is given the member, if it is there. -/
def update (v : Value) (name : String) (change : Option Value → Except Failure Value) :
    Except Failure Value :=
  match v with
  | .map es => do
    let w ← change (Value.lookup (.text name) es)
    .ok (.map (Value.put (.text name) w es))
  | v => .error (.noMembers v "get")

/-- Annotations with a stamp in them. -/
def annotate (stamp : String) : Option Value → Except Failure Value
  | none | some .null => .ok (.map [(.text annotation, .text stamp)])
  | some (.map es) => .ok (.map (Value.put (.text annotation) (.text stamp) es))
  | some v => .error (.noAssignment v)

/-- A resource with a stamp put on it. -/
def put (stamp : String) (resource : Value) : Except Failure Value :=
  update resource "metadata" fun metadata =>
    update (metadata.getD (.map [])) "annotations" (annotate stamp)

/-- The merge patch between two resources. -/
def patchBetween (before after : Value) : Value :=
  .map (MergePatch.create (before.entries?.getD []) (after.entries?.getD []))

/-- The patch that stamps a resource for a rule stored at `created`, if its stamp is stale. -/
def change? (w : Windows) (created : Moment) (now : Instant) (resource : Value) :
    Except Failure (Option Value) := do
  let stamp ← current resource
  if ← isStale w created stamp (.utc now) then
    let stamped ← put (ofInstant now) resource
    .ok (some (patchBetween resource stamped))
  else .ok none

end AccessRules.Stamp
