import AccessRules.Document.Access
import AccessRules.Fault

/-!
# Faults by name

A fault can be described by the name of its kind and a map of its data, among which may be words of
its own: a message, a code, a suggestion and further context.  Data that a kind of fault does not
have are refused.
-/

namespace AccessRules

open Calendar

/-- A duration among the data of a fault, none when it is not there. -/
def Cause.durationIn (data : Value) (name : String) : Except Failure Duration :=
  match data.get? name with
  | none => .ok 0
  | some v =>
    match v.duration? with
    | some d => .ok d
    | none => .error (.outOfRange "days out of range")

/-- The cause that a name and data stand for. -/
def Cause.named (name : String) (data : Value) : Except Failure Cause :=
  let text (key : String) : String := (data.member key).asText
  let endpoint := text "endpoint"
  let operation := text "operation"
  let underlying := text "underlying_error"
  match name with
  | "AclApiError" => .ok .general
  | "RuleValidationError" => .ok (.invalidRule (text "field_name") (text "reason"))
  | "ResolutionError" => .ok (.unresolved endpoint)
  | "EmptyRuleError" => .ok (.emptyEndpoint endpoint)
  | "ClusterNotFoundError" => .ok (.clusterNotFound endpoint (text "pool"))
  | "NotKubernetesPoolError" => .ok (.notKubernetesPool endpoint (text "pool"))
  | "DirectoryHTTPError" =>
    .ok (.directoryStatus endpoint (data.member "status_code").asInt (text "body")
      (text "request_id"))
  | "DirectoryResponseError" => .ok (.directoryAnswer endpoint underlying none)
  | "SyncStorageLockedError" =>
    (durationIn data "retry_after").map (.locked (text "rule_id") (text "engine"))
  | "StrategyNotFoundError" =>
    .ok (.unknownStrategy (text "strategy") ((data.member "available").asItems.map Value.asText))
  | "ShutdownTimeoutError" =>
    .ok (.shutdownTimeout (match data.get? "timeout_seconds" with
      | some v => v.asScalar
      | none => .float (.zero false)))
  | "StorageError" => .ok (.storage operation)
  | "StorageConnectionError" => .ok (.storageConnection operation (text "db_path"))
  | "StorageWriteError" => .ok (.storageWrite operation underlying)
  | "StorageReadError" => .ok (.storageRead operation underlying)
  | "RuleNotFoundError" => .ok (.ruleNotFound operation (text "rule_id"))
  | "InstanceAlreadyExistsError" => .ok (.ruleExists operation)
  | "TargetResourceError" =>
    .ok (.resource (text "kind") (text "namespace") (text "name") (data.member "status").int?)
  | _ => .error (.noEntry name)

namespace Fault

/-- The names under which the words of any fault are given. -/
def wordNames : List String := ["message", "code", "suggestion", "context"]

/-- Whether a fault of a cause may be given something under a key. -/
def takes (cause : Cause) (key : Scalar) : Bool :=
  (wordNames ++ cause.attributes.map Prod.fst).any fun name => key == .text name

/-- The fault that a name and data stand for. -/
def named (name : String) (data : Value) : Except Failure Fault := do
  let cause ← Cause.named name data
  match data.asEntries.find? fun e => !takes cause e.1 with
  | some (key, _) =>
    .error (.wrongType ("unexpected argument " ++ Text.quoted (Shown.scalar key)))
  | none =>
    .ok (.make cause (data.member "message").asText (data.member "code").asInt
      (data.member "suggestion").text? (data.member "context").asEntries)

end Fault

end AccessRules
