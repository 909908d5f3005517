import AccessRules.Document.Access
import AccessRules.Document.JsonReader
import AccessRules.Storage.Database

/-!
# Databases as documents

A database is written to a file as a document of its version and the rows of its tables.  Reading it
back gives the same rows; a document without a version is no database.
-/

namespace AccessRules.Storage

/-! ## Rows -/

/-- A row of the table of rules as a document. -/
def ruleRowDocument (r : Rule.Row) : Value :=
  .record [("rule_id", .text r.id), ("rule_name", .ofText? r.name), ("source", .text r.source),
    ("destination", .text r.destination), ("source_app", .ofText? r.sourceApp),
    ("source_job", .ofText? r.sourceJob), ("removed", .bool r.removed),
    ("metadata", .text r.metadata), ("created", .text r.created), ("creator", .text r.creator)]

/-- The row of the table of rules that a document stands for. -/
def ruleRowOf (v : Value) : Rule.Row where
  id := (v.member "rule_id").asText
  name := (v.member "rule_name").text?
  source := (v.member "source").asText
  destination := (v.member "destination").asText
  sourceApp := (v.member "source_app").text?
  sourceJob := (v.member "source_job").text?
  removed := (v.member "removed").asBool
  metadata := (v.member "metadata").asText
  created := (v.member "created").asText
  creator := (v.member "creator").asText

/-- A row of the table of locks as a document. -/
def lockRowDocument (r : Lock.Row) : Value :=
  .record [("sync_id", .text r.id), ("rule_id", .text r.ruleId), ("engine", .text r.engine),
    ("start_time", .text r.started), ("end_time", .ofText? r.ended), ("ping_time", .text r.pinged),
    ("running", .bool r.running), ("syncs", .text r.history)]

/-- The row of the table of locks that a document stands for. -/
def lockRowOf (v : Value) : Lock.Row where
  id := (v.member "sync_id").asText
  ruleId := (v.member "rule_id").asText
  engine := (v.member "engine").asText
  started := (v.member "start_time").asText
  ended := (v.member "end_time").text?
  pinged := (v.member "ping_time").asText
  running := (v.member "running").asBool
  history := (v.member "syncs").asText

/-- A row of rules is read back. -/
theorem ruleRowOf_document (r : Rule.Row) : ruleRowOf (ruleRowDocument r) = r := by
  obtain ⟨id, name, source, destination, app, job, removed, metadata, created, creator⟩ := r
  cases name <;> cases app <;> cases job <;>
    simp [ruleRowOf, ruleRowDocument, Value.record, Value.member, Value.get?, Value.entries?,
      Value.lookup, Value.asText, Value.text?, Value.asBool, Value.ofText?]

/-- A row of locks is read back. -/
theorem lockRowOf_document (r : Lock.Row) : lockRowOf (lockRowDocument r) = r := by
  obtain ⟨id, ruleId, engine, started, ended, pinged, running, history⟩ := r
  cases ended <;>
    simp [lockRowOf, lockRowDocument, Value.record, Value.member, Value.get?, Value.entries?,
      Value.lookup, Value.asText, Value.text?, Value.asBool, Value.ofText?]

/-! ## Databases -/

namespace Database

/-- A database as a document. -/
def document (d : Database) : Value :=
  .record [("schema_version", (d.version.map Value.int).getD .null),
    ("rules", .list (d.rules.map ruleRowDocument)), ("rule_syncs", .list (d.locks.map lockRowDocument))]

/-- The database at a path that a document stands for. -/
def ofDocument? (path : String) (v : Value) : Option Database :=
  match v.member "schema_version" with
  | .int version =>
    some ⟨path, some version, (v.member "rules").asItems.map ruleRowOf,
      (v.member "rule_syncs").asItems.map lockRowOf⟩
  | _ => none

/-- What is written to the file of a database; one without tables has an empty file. -/
def archive (d : Database) : String :=
  if d.version.isNone then "" else Json.render .compact d.document

/-- The database at a path whose file holds a text. -/
def ofArchive? (path text : String) : Option Database :=
  if text.isEmpty then some (.blank path) else (Json.parse? text).bind (ofDocument? path)

end Database

end AccessRules.Storage
