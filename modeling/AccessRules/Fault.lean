import AccessRules.Calendar.Duration
import AccessRules.Document.Json
import AccessRules.Document.Shown
import AccessRules.Schema.Check

/-!
# Faults

Everything the service itself refuses or fails at is a `Fault`: a `Cause` with the data of that
cause, and the message, code, suggestion and context derived from it.  `Fault.of` derives them; a
caller may give its own message, code, suggestion or further context, which then take precedence,
an empty message, a zero code or an empty suggestion counting as not given.

Codes are grouped by thousands: 1 rules, 2 resolution, 3 passes, 4 storage, 5 resources.
-/

namespace AccessRules

open Calendar

/-- Why the service failed, with what it failed at. -/
inductive Cause where
  | general
  | invalidRule (field reason : String)
  | unresolved (endpoint : String)
  | emptyEndpoint (endpoint : String)
  | clusterNotFound (endpoint pool : String)
  | notKubernetesPool (endpoint pool : String)
  | directoryStatus (endpoint : String) (status : Int) (body requestId : String)
  | directoryAnswer (endpoint underlying : String) (report : Option Schema.Report)
  | locked (ruleId engine : String) (retryAfter : Duration)
  | unknownStrategy (strategy : String) (available : List String)
  | shutdownTimeout (timeout : Scalar)
  | storage (operation : String)
  | storageConnection (operation path : String)
  | storageWrite (operation underlying : String)
  | storageRead (operation underlying : String)
  | ruleNotFound (operation ruleId : String)
  | ruleExists (operation : String)
  | resource (kind namespaceName name : String) (status : Option Int)
  deriving DecidableEq, Repr

namespace Cause

/-- The name of a kind of fault and of the kinds it belongs to, the most special first. -/
def family : Cause → List String
  | .general => ["AclApiError"]
  | .invalidRule .. => ["RuleValidationError", "AclApiError"]
  | .unresolved _ => ["ResolutionError", "AclApiError"]
  | .emptyEndpoint _ => ["EmptyRuleError", "ResolutionError", "AclApiError"]
  | .clusterNotFound .. => ["ClusterNotFoundError", "ResolutionError", "AclApiError"]
  | .notKubernetesPool .. => ["NotKubernetesPoolError", "ResolutionError", "AclApiError"]
  | .directoryStatus .. => ["DirectoryHTTPError", "ResolutionError", "AclApiError"]
  | .directoryAnswer .. => ["DirectoryResponseError", "ResolutionError", "AclApiError"]
  | .locked .. => ["SyncStorageLockedError", "AclApiError"]
  | .unknownStrategy .. => ["StrategyNotFoundError", "AclApiError"]
  | .shutdownTimeout _ => ["ShutdownTimeoutError", "AclApiError"]
  | .storage _ => ["StorageError", "AclApiError"]
  | .storageConnection .. => ["StorageConnectionError", "StorageError", "AclApiError"]
  | .storageWrite .. => ["StorageWriteError", "StorageError", "AclApiError"]
  | .storageRead .. => ["StorageReadError", "StorageError", "AclApiError"]
  | .ruleNotFound .. => ["RuleNotFoundError", "StorageError", "AclApiError"]
  | .ruleExists _ => ["InstanceAlreadyExistsError", "StorageError", "AclApiError"]
  | .resource .. => ["TargetResourceError", "AclApiError"]

/-- The name of a kind of fault. -/
def name (c : Cause) : String := c.family.headD ""

/-- Whether a fault says that an endpoint, pool or cluster could not be resolved. -/
def isResolution (c : Cause) : Bool := c.family.contains "ResolutionError"

/-- The code of a kind of fault; 0 for the kinds that have none of their own. -/
def code : Cause → Int
  | .general => 0
  | .invalidRule .. => 1001
  | .unresolved _ => 2001
  | .emptyEndpoint _ => 2002
  | .clusterNotFound .. => 2003
  | .notKubernetesPool .. => 2004
  | .directoryStatus .. => 2005
  | .directoryAnswer .. => 2006
  | .locked .. => 3001
  | .shutdownTimeout _ => 3002
  | .unknownStrategy .. => 3003
  | .storage _ => 0
  | .storageConnection .. => 4001
  | .storageWrite .. => 4002
  | .storageRead .. => 4003
  | .ruleNotFound .. => 4004
  | .ruleExists _ => 4005
  | .resource .. => 5001

/-- A status as text. -/
def statusText : Option Int → String
  | some n => toString n
  | none => "None"

/-- What a fault says unless it is given its own words. -/
def message : Cause → String
  | .general => ""
  | .invalidRule field reason => if field.isEmpty then reason else field ++ ": " ++ reason
  | .unresolved _ => ""
  | .emptyEndpoint _ => "rule must have an app name or a pool name"
  | .clusterNotFound .. => "cluster not found"
  | .notKubernetesPool .. => "not a kubernetes pool"
  | .directoryStatus _ status body requestId =>
    "invalid status code " ++ toString status ++
      (if requestId.isEmpty then "" else "(request-id: " ++ requestId ++ ")") ++ ": " ++
      Json.string true body
  | .directoryAnswer _ underlying _ => "unable to decode response: " ++ underlying
  | .locked .. => "sync already locked"
  | .unknownStrategy strategy _ => "Unknown strategy: " ++ strategy
  | .shutdownTimeout timeout => "periodic sync did not stop within " ++ Shown.scalar timeout ++ "s"
  | .storage _ => ""
  | .storageConnection _ path => "Failed to connect to database: " ++ path
  | .storageWrite _ underlying => "Database write failed: " ++ underlying
  | .storageRead _ underlying => "Database read failed: " ++ underlying
  | .ruleNotFound .. => "rule not found"
  | .ruleExists _ => "instance already exists"
  | .resource kind ns name status =>
    kind ++ " " ++ ns ++ "/" ++ name ++ ": request failed (status " ++ statusText status ++ ")"

/-- What a fault suggests unless it is given its own suggestion. -/
def suggestion : Cause → Option String
  | .clusterNotFound .. =>
    some "Add the pool to a kubernetes cluster or flag one cluster as default"
  | .unknownStrategy _ available =>
    if available.isEmpty then none
    else some ("Available strategies: " ++ ", ".intercalate available)
  | .shutdownTimeout _ =>
    some "Increase sync.shutdown_timeout above the worst-case pass duration"
  | .storageConnection .. => some "Check that the storage path is valid and writable"
  | _ => none

/-- A status as a document. -/
def statusValue : Option Int → Value
  | some n => .int n
  | none => .null

/-- The entries a fault adds to its context. -/
def context : Cause → List (String × Value)
  | .general => []
  | .invalidRule field reason => [("field", .text field), ("reason", .text reason)]
  | .unresolved e => [("endpoint", .text e)]
  | .emptyEndpoint e => [("endpoint", .text e)]
  | .clusterNotFound e pool => [("endpoint", .text e), ("pool", .text pool)]
  | .notKubernetesPool e pool => [("endpoint", .text e), ("pool", .text pool)]
  | .directoryStatus e status _ requestId =>
    [("endpoint", .text e), ("status_code", .int status), ("request_id", .text requestId)]
  | .directoryAnswer e underlying _ =>
    [("endpoint", .text e), ("underlying_error", .text underlying)]
  | .locked ruleId engine retryAfter =>
    [("rule_id", .text ruleId), ("engine", .text engine),
      ("retry_after_seconds", .float (Duration.seconds retryAfter))]
  | .unknownStrategy strategy _ => [("strategy", .text strategy)]
  | .shutdownTimeout timeout => [("timeout_seconds", .scalar timeout)]
  | .storage op => [("operation", .text op)]
  | .storageConnection op path => [("operation", .text op), ("db_path", .text path)]
  | .storageWrite op underlying =>
    [("operation", .text op), ("underlying_error", .text underlying)]
  | .storageRead op underlying =>
    [("operation", .text op), ("underlying_error", .text underlying)]
  | .ruleNotFound op ruleId => [("operation", .text op), ("rule_id", .text ruleId)]
  | .ruleExists op => [("operation", .text op)]
  | .resource kind ns name status =>
    [("kind", .text kind), ("namespace", .text ns), ("name", .text name),
      ("status", statusValue status)]

/-- The data of a cause by name, as a description of the fault shows them. -/
def attributes : Cause → List (String × String)
  | .general => []
  | .invalidRule field reason => [("field_name", Text.quoted field), ("reason", Text.quoted reason)]
  | .unresolved e => [("endpoint", Text.quoted e)]
  | .emptyEndpoint e => [("endpoint", Text.quoted e)]
  | .clusterNotFound e pool => [("endpoint", Text.quoted e), ("pool", Text.quoted pool)]
  | .notKubernetesPool e pool => [("endpoint", Text.quoted e), ("pool", Text.quoted pool)]
  | .directoryStatus e status body requestId =>
    [("endpoint", Text.quoted e), ("status_code", toString status), ("body", Text.quoted body),
      ("request_id", Text.quoted requestId)]
  | .directoryAnswer e underlying _ =>
    [("endpoint", Text.quoted e), ("underlying_error", Text.quoted underlying)]
  | .locked ruleId engine retryAfter =>
    [("rule_id", Text.quoted ruleId), ("engine", Text.quoted engine),
      ("retry_after", Shown.duration retryAfter)]
  | .unknownStrategy strategy available =>
    [("strategy", Text.quoted strategy),
      ("available", Shown.value (.list (available.map Value.text)))]
  | .shutdownTimeout timeout => [("timeout_seconds", Shown.scalar timeout)]
  | .storage op => [("operation", Text.quoted op)]
  | .storageConnection op path => [("operation", Text.quoted op), ("db_path", Text.quoted path)]
  | .storageWrite op underlying =>
    [("operation", Text.quoted op), ("underlying_error", Text.quoted underlying)]
  | .storageRead op underlying =>
    [("operation", Text.quoted op), ("underlying_error", Text.quoted underlying)]
  | .ruleNotFound op ruleId => [("operation", Text.quoted op), ("rule_id", Text.quoted ruleId)]
  | .ruleExists op => [("operation", Text.quoted op)]
  | .resource kind ns name status =>
    [("kind", Text.quoted kind), ("namespace", Text.quoted ns), ("name", Text.quoted name),
      ("status", statusText status)]

end Cause

/-- A failure of the service: its cause and what it says about it. -/
structure Fault where
  cause : Cause
  message : String
  code : Int
  suggestion : Option String
  context : List (Scalar × Value)
  deriving Repr

namespace Fault

/-- The context with further entries; an entry whose key is there replaces its value. -/
def extend (context : List (Scalar × Value)) (more : List (String × Value)) :
    List (Scalar × Value) :=
  more.foldl (fun es e => Value.put (.text e.1) e.2 es) context

/-- A suggestion that says something. -/
def given? (s : Option String) : Option String := s.filter (!·.isEmpty)

/-- The fault of a cause, with its own message, code, suggestion and context where they are
given. -/
def make (cause : Cause) (message : String) (code : Int) (suggestion : Option String)
    (context : List (Scalar × Value)) : Fault where
  cause := cause
  message := if message.isEmpty then cause.message else message
  code := if code = 0 then cause.code else code
  suggestion := match given? suggestion, cause.suggestion with
    | none, some s => some s
    | _, _ => suggestion
  context := extend context cause.context

/-- The fault of a cause. -/
def of (cause : Cause) : Fault := make cause "" 0 none []

/-- The fault of a cause in other words. -/
def saying (cause : Cause) (message : String) : Fault := make cause message 0 none []

/-- The text of a fault: code and message, and the suggestion on a line of its own. -/
def text (f : Fault) : String :=
  "[E" ++ toString f.code ++ "] " ++ f.message ++
    (match given? f.suggestion with
      | some s => "\nSuggestion: " ++ s
      | none => "")

/-- A description of a fault with all its data. -/
def description (f : Fault) : String :=
  let message := "message=" ++ Text.quoted f.message
  let code := "code=" ++ toString f.code
  let context := "context=" ++ Shown.value (.map f.context)
  let suggestion := "suggestion=" ++ (match f.suggestion with
    | some s => Text.quoted s
    | none => "None")
  match f.cause with
  | .general => Shown.call f.cause.name [message, code, context]
  | c => Shown.call c.name
      ([message, code, suggestion, context] ++ c.attributes.map fun (k, v) => k ++ "=" ++ v)

/-- A fault as a document. -/
def document (f : Fault) : Value :=
  .record [("error_type", .text f.cause.name), ("message", .text f.message), ("code", .int f.code),
    ("suggestion", .ofText? f.suggestion), ("context", .map f.context)]

/-- Whether the directory said that it does not know the name. -/
def isNotFound (f : Fault) : Bool :=
  match f.cause with
  | .directoryStatus _ status _ _ => status == 404
  | _ => false

end Fault

/-- How an operation may fail: a fault of the service, or a misuse or mishap below it. -/
inductive Failure where
  /-- the service refused or failed -/
  | fault (f : Fault)
  /-- a document does not fit its schema -/
  | mismatch (report : Schema.Report)
  /-- an argument that has the right type but no meaning -/
  | badValue (message : String)
  /-- an operation called out of turn, or a strategy that gave up -/
  | runtime (message : String)
  /-- a text that is no document -/
  | malformed
  /-- a value of a type the operation cannot work on -/
  | wrongType (message : String)
  /-- a value that lacks the operation asked of it -/
  | noAttribute (message : String)
  /-- a date, duration or number outside its range -/
  | outOfRange (message : String)
  /-- an address that no request can be sent to -/
  | badAddress (message : String)
  /-- a file that cannot be read -/
  | unreadable (message : String)
  /-- a text with characters that may not be sent -/
  | unencodable (message : String)
  /-- a word that is not in a table -/
  | noEntry (message : String)
  /-- a place beyond the end -/
  | noItem (message : String)
  /-- what is called broke down, with a failure of some kind -/
  | breakdown (kind message : String)
  deriving Repr

/-- What a failure says; a report of mismatches is quoted by its first line. -/
def Failure.text : Failure → String
  | .fault f => f.text
  | .mismatch r => r.headline
  | .badValue m => m
  | .runtime m => m
  | .malformed => ""
  | .wrongType m => m
  | .noAttribute m => m
  | .outOfRange m => m
  | .badAddress m => m
  | .unreadable m => m
  | .unencodable m => m
  | .noEntry m => m
  | .noItem m => m
  | .breakdown _ m => m

/-- A date moved out of the calendar. -/
def Failure.dateOutOfRange : Failure := .outOfRange "date value out of range"

/-- A stored time that cannot be read. -/
def Failure.unreadableTime (s : String) : Failure :=
  .badValue ("Invalid isoformat string: " ++ Text.quoted s)

end AccessRules
