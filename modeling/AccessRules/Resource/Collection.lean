import AccessRules.Resource.Call
import AccessRules.Resource.MergePatch

/-!
# Collections of resources

The resources of one kind, as a cluster keeps them in memory: they are read, and changed by merge
patches.  A collection may have trouble with some actions on some resources, and it records the
calls made to it, the oldest first.
-/

namespace AccessRules.Resource

/-- The resources of one kind. -/
structure Collection where
  kind : Kind
  documents : List (Key × Value)
  troubles : List ((Action × Key) × Refusal)
  calls : List Call
  deriving Repr

namespace Collection

/-- No resources. -/
def empty (kind : Kind) : Collection := ⟨kind, [], [], []⟩

/-- The resource of a key. -/
def find? (c : Collection) (key : Key) : Option Value := c.documents.lookup key

/-- The collection without the resource of a key. -/
def remove (c : Collection) (key : Key) : Collection :=
  { c with documents := c.documents.filter (·.1 ≠ key) }

/-- The collection with a resource put under a key. -/
def put (c : Collection) (key : Key) (v : Value) : Collection :=
  { c with documents := (key, v) :: c.documents.filter (·.1 ≠ key) }

/-- The collection without trouble with an action. -/
def heal (c : Collection) (a : Action) (key : Key) : Collection :=
  { c with troubles := c.troubles.filter (·.1 ≠ (a, key)) }

/-- The collection in trouble with an action. -/
def trouble (c : Collection) (a : Action) (key : Key) (r : Refusal) : Collection :=
  { c with troubles := ((a, key), r) :: c.troubles.filter (·.1 ≠ (a, key)) }

/-- The collection after a call was made to it. -/
def record (c : Collection) (call : Call) : Collection := { c with calls := c.calls ++ [call] }

/-- The refusal of an action. -/
def refusal? (c : Collection) (a : Action) (key : Key) : Option Refusal :=
  c.troubles.lookup (a, key)

/-- The refusal to change what is not there. -/
def notThere : Refusal := ⟨some 404, some "Not Found"⟩

/-- Reads a resource. -/
def get (c : Collection) (key : Key) : Except Failure (Option Value) × Collection :=
  let after := c.record (.get c.kind key)
  match c.refusal? .get key with
  | some r => (.error (r.failure c.kind key), after)
  | none => (.ok (c.find? key), after)

/-- Changes a resource. -/
def patch (c : Collection) (key : Key) (change : Value) : Except Failure Value × Collection :=
  let after := c.record (.patch c.kind key change)
  match c.refusal? .patch key, c.find? key with
  | some r, _ => (.error (r.failure c.kind key), after)
  | none, none => (.error (notThere.failure c.kind key), after)
  | none, some v =>
    let changed := MergePatch.apply v change
    (.ok changed, after.put key changed)

/-- The resources in the order of their keys. -/
def sorted (c : Collection) : List (Key × Value) :=
  c.documents.mergeSort fun a b =>
    a.1.space < b.1.space || (a.1.space == b.1.space && a.1.name ≤ b.1.name)

end Collection

end AccessRules.Resource
