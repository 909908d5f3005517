import AccessRules.Calendar.Stored
import AccessRules.Document.JsonReader
import AccessRules.Rule.Basic
import AccessRules.Storage.Identifier

/-!
# The table of rules

Rules are rows of texts: both ends and the labels as JSON, the moment of storing as stored times
are.  The names of the app and the job a rule starts from are copied into columns of their own.

A table holds an identifier once, and so it does a name; rules without a name have none there.  A
batch of rules is stored as a whole or not at all.  A rule is never taken out of the table, only
marked as removed.
-/

namespace AccessRules.Rule

open Calendar

/-- A rule as it is stored. -/
structure Row where
  id : String
  name : Option String
  source : String
  destination : String
  sourceApp : Option String
  sourceJob : Option String
  removed : Bool
  metadata : String
  created : String
  creator : String
  deriving DecidableEq, Repr

/-- All rows, the oldest first. -/
abbrev Table := List Row

namespace Row

/-- The row of a rule. -/
def ofRule (r : Rule) : Row where
  id := r.id
  name := if r.name.isEmpty then none else some r.name
  source := Json.render .compact r.source.document
  destination := Json.render .compact r.destination.document
  sourceApp := r.sourceApp?
  sourceJob := r.sourceJob?
  removed := r.removed
  metadata := Json.render .spaced r.metadata.document
  created := storedText r.created.instant
  creator := r.creator

/-- A stored document read by a schema. -/
def readText {α : Type} (schema : String) (read : Schema.Reader α) (s : String) :
    Except Failure α :=
  match Json.parse s.toList with
  | .error f => .error (.badValue (f.message s.toList))
  | .ok v =>
    match (read v).reported schema with
    | .ok a => .ok a
    | .error report => .error (.mismatch report)

/-- A stored end of a rule. -/
def readEndpoint : String → Except Failure Endpoint := readText "RuleType" Endpoint.read

/-- Stored labels. -/
def readLabels : String → Except Failure Labels :=
  readText "Rule" (Schema.textMap Schema.text)

/-- A stored time. -/
def readTime (s : String) : Except Failure Moment :=
  match Moment.ofIso? s with
  | some m => .ok m.assumeUtc
  | none => .error (.unreadableTime s)

/-- The rule a row stands for. -/
def rule (r : Row) : Except Failure Rule := do
  .ok ⟨r.id, r.name.getD "", ← readEndpoint r.source, ← readEndpoint r.destination, r.removed,
    ← readLabels r.metadata, ← readTime r.created, r.creator⟩

end Row

/-- Which of the columns that hold a value once a row would repeat. -/
inductive Conflict where
  | id
  | name
  deriving DecidableEq, Repr

/-- The column of a conflict. -/
def Conflict.column : Conflict → String
  | .id => "rules.rule_id"
  | .name => "rules.rule_name"

/-- What a conflict says. -/
def Conflict.message (c : Conflict) : String := "UNIQUE constraint failed: " ++ c.column

/-- The failure of a batch that meets a conflict. -/
def Conflict.failure (c : Conflict) : Failure :=
  .fault (.make (.ruleExists "save_rules") "" 0 none
    [(.text "underlying_error", .text c.message)])

namespace Table

/-- Whether an identifier is in the table. -/
def hasId (t : Table) (id : String) : Bool := t.any (·.id == id)

/-- Whether the name of a row belongs to a row with another identifier. -/
def nameTaken (t : Table) (row : Row) : Bool :=
  row.name.isSome && t.any fun r => r.name == row.name && r.id != row.id

/-- The table with a row put in the place of the one with its identifier. -/
def replace (t : Table) (row : Row) : Table := t.map fun r => if r.id == row.id then row else r

/-- Stores a row.  `replacing` says whether it may take the place of the row with its identifier;
a name that another row has is a conflict in any case. -/
def insert (replacing : Bool) (t : Table) (row : Row) : Except Conflict Table :=
  if t.hasId row.id && replacing then
    if t.nameTaken row then .error .name else .ok (t.replace row)
  else if row.name.isSome && t.any (·.name == row.name) then .error .name
  else if t.hasId row.id then .error .id
  else .ok (t ++ [row])

/-- Stores rows one after the other, all or none of them. -/
def insertAll (replacing : Bool) (t : Table) (rows : List Row) : Except Conflict Table :=
  rows.foldlM (insert replacing) t

/-- The row with an identifier, or else the row with a name. -/
def find? (t : Table) (idOrName : String) : Option Row :=
  match List.find? (·.id == idOrName) t with
  | some r => some r
  | none => List.find? (·.name == some idOrName) t

/-- The rows in the order of their identifiers. -/
def sorted (t : Table) : List Row := t.mergeSort fun a b => a.id ≤ b.id

end Table

/-- Which rules are wanted: with some labels, by a creator, from an app, from a job.  What is empty
admits every rule. -/
structure Selection where
  metadata : Labels
  creator : String
  sourceApp : String
  sourceJob : String
  deriving DecidableEq, Repr

/-- All rules. -/
def Selection.all : Selection := ⟨[], "", "", ""⟩

/-- Whether the columns of a row are as wanted. -/
def Selection.admitsRow (s : Selection) (r : Row) : Bool :=
  (s.creator.isEmpty || r.creator == s.creator) &&
    (s.sourceApp.isEmpty || r.sourceApp == some s.sourceApp) &&
    (s.sourceJob.isEmpty || r.sourceJob == some s.sourceJob)

/-- The wanted rules, in the order of their identifiers. -/
def Table.select (t : Table) (s : Selection) : Except Failure (List Rule) := do
  let rules ← (Table.sorted (t.filter s.admitsRow)).mapM Row.rule
  .ok (rules.filter fun r => r.metadata.hold s.metadata)

/-- Which rules are to be removed: the one with an identifier, unless that is empty, and only with
some labels. -/
structure Removal where
  id : String
  metadata : Labels
  deriving DecidableEq, Repr

/-- Whether a row is to be removed; it must not be removed already. -/
def Removal.admits (d : Removal) (r : Row) : Except Failure Bool :=
  if r.removed || !(d.id.isEmpty || r.id == d.id) then .ok false
  else (Row.readLabels r.metadata).map fun labels => labels.hold d.metadata

/-- A row marked as removed if it is to be. -/
def Removal.mark (d : Removal) (r : Row) : Except Failure Row :=
  (d.admits r).map fun admitted => if admitted then { r with removed := true } else r

/-- Marks rows as removed, and says how many. -/
def Table.remove (t : Table) (d : Removal) : Except Failure (Nat × Table) := do
  let marks ← t.mapM d.admits
  .ok (marks.count true, ← t.mapM d.mark)

/-! ## Batches -/

/-- Rules as they are stored at an instant: those without an identifier get one. -/
def assign (now : Instant) : List Rule → Storage.Supply → List Rule × Storage.Supply
  | [], ids => ([], ids)
  | r :: rest, ids =>
    let (id, ids) := if r.id.isEmpty then ids.next else (r.id, ids)
    let (rest, ids) := assign now rest ids
    ({ r with id := id, created := .utc now } :: rest, ids)

end AccessRules.Rule
