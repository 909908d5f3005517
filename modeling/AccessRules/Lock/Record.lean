import AccessRules.Calendar.Duration
import AccessRules.Document.Json
import AccessRules.Schema.Record

/-!
# Lock records

For each rule and each engine that applies rules there is one record: who it belongs to, whether the
engine is at work on the rule, when it last started, ended and gave a sign of life, and the last
outcomes, the oldest first.

An `Outcome` says how one application of a rule by an engine ended.  In its stored form UTC is
written `Z`.
-/

namespace AccessRules.Lock

open Calendar Schema

/-- How one application of a rule ended. -/
structure Outcome where
  started : Moment
  ended : Moment
  successful : Bool
  removed : Bool
  error : String
  result : String
  deriving DecidableEq, Repr

namespace Outcome

/-- An outcome of a document. -/
def read : Reader Outcome :=
  record ["start_time", "end_time", "successful", "removed", "error", "sync_result"] fun es =>
    Outcome.mk <$> required es "start_time" moment <*> required es "end_time" moment <*>
      field es "successful" Schema.bool false <*> field es "removed" Schema.bool false <*>
      field es "error" Schema.text "" <*> field es "sync_result" Schema.text ""

/-- An outcome as a document, its times written by `time`. -/
def documentWith (time : Moment → Value) (o : Outcome) : Value :=
  .record [("start_time", time o.started), ("end_time", time o.ended),
    ("successful", .bool o.successful), ("removed", .bool o.removed), ("error", .text o.error),
    ("sync_result", .text o.result)]

def document (o : Outcome) : Value := o.documentWith fun m => .scalar (.moment m)

/-- A moment as stored outcomes have it. -/
def storedTime (m : Moment) : String :=
  if m.offset = some 0 then (Moment.mk m.reading none).iso ++ "Z" else m.iso

/-- The form in which an outcome is stored. -/
def stored (o : Outcome) : Value := o.documentWith fun m => .text (storedTime m)

end Outcome

/-- The record of a rule and an engine. -/
structure Record where
  id : String
  ruleId : String
  engine : String
  started : Moment
  ended : Option Moment
  pinged : Moment
  running : Bool
  history : List Outcome
  deriving DecidableEq, Repr

namespace Record

/-- A record of a document. -/
def read : Reader Record :=
  record ["sync_id", "rule_id", "engine", "start_time", "end_time", "ping_time", "running",
      "syncs"] fun es =>
    Record.mk <$> required es "sync_id" Schema.text <*> required es "rule_id" Schema.text <*>
      required es "engine" Schema.text <*> required es "start_time" moment <*>
      field es "end_time" (optional moment) none <*> required es "ping_time" moment <*>
      field es "running" Schema.bool false <*> field es "syncs" (list Outcome.read) []

/-- A record as a document. -/
def document (r : Record) : Value :=
  .record [("sync_id", .text r.id), ("rule_id", .text r.ruleId), ("engine", .text r.engine),
    ("start_time", .scalar (.moment r.started)),
    ("end_time", match r.ended with
      | some m => .scalar (.moment m)
      | none => .null),
    ("ping_time", .scalar (.moment r.pinged)), ("running", .bool r.running),
    ("syncs", .list (r.history.map Outcome.document))]

/-- The outcome that came last. -/
def latest? (r : Record) : Option Outcome := r.history.getLast?

end Record

end AccessRules.Lock
