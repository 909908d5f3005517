import AccessRules.Document.Yaml.Node
import AccessRules.Document.Yaml.Scalar
import AccessRules.Fault

/-!
# Documents of a YAML text

`Yaml.parse` reads a text into a document.

A map may take over the entries of others: those under its merge keys come first, and its own stand
over them.  Of several faults in a text the one in the outermost collection counts, and of those the
first.  Keys have to be scalars.
-/

namespace AccessRules.Yaml

/-- The kind of a node. -/
def Node.kind? : Node → Option Kind
  | .scalar taking text =>
    match taking with
    | .asPlain => some (Kind.ofPlain text)
    | .byForm => some .text
    | .tagged tag => Kind.ofTag? tag
  | .list taking _ =>
    match taking with
    | .tagged tag => Kind.ofTag? tag
    | _ => some .list
  | .map taking _ =>
    match taking with
    | .tagged tag => Kind.ofTag? tag
    | _ => some .map

/-- Whether a node is a map. -/
def Node.isMap : Node → Bool
  | .map .. => true
  | _ => false

/-- Whether a key takes over other maps. -/
def Node.isMerge (n : Node) : Bool := n.kind? == some .merge

/-- The text of a sign for a default value, which as a key stands for itself. -/
def Node.defaultText? : Node → Option String
  | .scalar taking text => if (Node.scalar taking text).kind? == some .default then some text else none
  | _ => none

mutual

/-- The text that stands for a node where a scalar is wanted: its own, or that of the default value
of a map. -/
def Node.scalarText? : Node → Option String
  | .scalar _ text => some text
  | .list .. => none
  | .map _ entries => defaultValue? entries

/-- The text of the first default value among entries. -/
def defaultValue? : List (Node × Node) → Option String
  | [] => none
  | (k, v) :: rest => if k.defaultText?.isSome then v.scalarText? else defaultValue? rest

end

mutual

/-- Whether everything a map takes over is a map or a list of maps. -/
def mergesFit : List (Node × Node) → Bool
  | [] => true
  | (k, v) :: rest => (!k.isMerge || mergeFits v) && mergesFit rest

/-- Whether a node can be taken over. -/
def mergeFits : Node → Bool
  | .map _ entries => mergesFit entries
  | .list _ items => allMerge items
  | .scalar .. => false

/-- Whether all nodes are maps that can be taken over. -/
def allMerge : List Node → Bool
  | [] => true
  | n :: rest => n.isMap && mergeFits n && allMerge rest

end

/-- A fault and how deep in the collections of a text it lies. -/
abbrev Result (α : Type) := Except (Nat × Fault) α

/-- Two results that both have to be there.  Of two faults the less deep one counts, the first of
equally deep ones. -/
def both {α β : Type} (a : Result α) (b : Result β) : Result (α × β) :=
  match a, b with
  | .ok x, .ok y => .ok (x, y)
  | .error e, .ok _ => .error e
  | .ok _, .error e => .error e
  | .error e, .error f => .error (if f.1 < e.1 then f else e)

/-- The kinds of collections. -/
def Kind.collections : List Kind := [.list, .map, .set, .orderedMap, .pairs]

/-- Whether a node is to become a collection, which no key can be. -/
def Node.isCollection (n : Node) : Bool := n.kind?.any Kind.collections.contains

/-- The value of a scalar of a kind; a kind of collections shows its fault one level further in. -/
def scalarValue (depth : Nat) (kind : Option Kind) (text : String) : Result Value :=
  match kind with
  | none => .error (depth, .malformed)
  | some kind =>
    if Kind.collections.contains kind then .error (depth + 1, .malformed)
    else match kind.value text with
      | .ok v => .ok v
      | .error fault => .error (depth, fault)

/-- The fault of a collection whose tag names another kind. -/
def misfit (depth : Nat) (kind : Option Kind) : Result Value :=
  if kind.any Kind.collections.contains then
    .error (depth + 1, .malformed)
  else .error (depth, .malformed)

/-- An entry whose key is a scalar. -/
def entryOf (depth : Nat) : Value × Value → Result (Scalar × Value)
  | (.scalar k, v) => .ok (k, v)
  | _ => .error (depth, .malformed)

/-- Entries of which later ones replace earlier ones with the same key in place. -/
def distinct (entries : List (Scalar × Value)) : List (Scalar × Value) :=
  entries.foldl (fun es e => Value.put e.1 e.2 es) []

/-- The entries a map takes over, if it may, and after them its own. -/
def withMerged (depth : Nat) (fit : Bool) (merged own : Result (List (Scalar × Value))) :
    Result (List (Scalar × Value)) :=
  if fit then (both merged own).map fun (ms, es) => ms ++ es else .error (depth, .malformed)

mutual

/-- The value of a node whose collection lies at `depth`. -/
def value (depth : Nat) : Node → Result Value
  | .scalar taking text => scalarValue depth (Node.scalar taking text).kind? text
  | .list taking items =>
    match (Node.list taking items).kind? with
    | some .list => (values (depth + 1) items).map .list
    | some .orderedMap | some .pairs => (singles (depth + 1) items).map .list
    | kind => misfit depth kind
  | .map taking entries =>
    let all := withMerged (depth + 1) (mergesFit entries) (merged (depth + 1) entries)
      (own (depth + 1) entries)
    match (Node.map taking entries).kind? with
    | some .map => all.map fun es => .map (distinct es)
    | some .set => all.map fun es => .list ((distinct es).map fun e => .scalar e.1)
    | kind =>
      match defaultValue? entries with
      | some text => scalarValue depth kind text
      | none => misfit depth kind

/-- The values of the items of a list. -/
def values (depth : Nat) : List Node → Result (List Value)
  | [] => .ok []
  | n :: rest => (both (value depth n) (values depth rest)).map fun (v, vs) => v :: vs

/-- The entries of maps with one entry each, every entry as a list. -/
def singles (depth : Nat) : List Node → Result (List Value)
  | [] => .ok []
  | .map _ [(k, v)] :: rest =>
    (both (both (value depth k) (value depth v)) (singles depth rest)).map fun ((a, b), vs) =>
      .list [a, b] :: vs
  | _ :: _ => .error (depth, .malformed)

/-- The entries a map takes over. -/
def merged (depth : Nat) : List (Node × Node) → Result (List (Scalar × Value))
  | [] => .ok []
  | (k, v) :: rest =>
    (both (if k.isMerge then taken depth v else .ok []) (merged depth rest)).map fun (a, b) => a ++ b

/-- The entries of a map, or of the maps of a list, the last of them first. -/
def taken (depth : Nat) : Node → Result (List (Scalar × Value))
  | .map _ entries => (both (merged depth entries) (own depth entries)).map fun (a, b) => a ++ b
  | .list _ items => takenFrom depth items
  | .scalar .. => .ok []

/-- The entries of the maps of a list, the last of them first. -/
def takenFrom (depth : Nat) : List Node → Result (List (Scalar × Value))
  | [] => .ok []
  | n :: rest => (both (taken depth n) (takenFrom depth rest)).map fun (a, b) => b ++ a

/-- A map's own entries. -/
def own (depth : Nat) : List (Node × Node) → Result (List (Scalar × Value))
  | [] => .ok []
  | (k, v) :: rest =>
    if k.isMerge then own depth rest
    else
      let key : Result Value := match k.defaultText? with
        | some text => .ok (.text text)
        | none => if k.isCollection then .error (depth, .malformed) else value depth k
      let entry := (both key (value depth v)).bind (entryOf depth)
      (both entry (own depth rest)).map fun (e, es) => e :: es

end

/-- A fault as a failure. -/
def Fault.failure : Fault → Failure
  | .malformed => .malformed
  | .badValue message => .badValue message
  | .unknownWord word => .noEntry word
  | .noMoment => .noAttribute "'NoneType' object has no attribute 'groupdict'"
  | .emptyNumber => .noItem "string index out of range"

/-- The document of a text; null when it holds nothing. -/
def parse (s : String) : Except Failure Value :=
  match Node.ofText? s with
  | .error fault => .error fault.failure
  | .ok none => .ok .null
  | .ok (some n) =>
    match value 0 n with
    | .ok v => .ok v
    | .error (_, fault) => .error fault.failure

end AccessRules.Yaml
