import AccessRules.Document.Yaml.Reader
import AccessRules.Schema.Record

/-!
# Settings

What the service can be told about how to run: where rules are kept, which engines are enabled, how
often and with which time limits they run, and how to reach the directory and the clusters.

Every setting has a default, sections and settings may be left out, and anything unknown is
refused.  All durations are positive numbers of seconds.
-/

namespace AccessRules

namespace Settings

structure Storage where
  path : String
  deriving DecidableEq, Repr

structure Passes where
  interval : Binary64
  disabled : Bool
  lockExpire : Binary64
  keepAliveInterval : Binary64
  shutdownTimeout : Binary64
  deriving DecidableEq, Repr

structure DirectoryAccess where
  host : String
  token : String
  deriving DecidableEq, Repr

structure Http where
  timeout : Binary64
  deriving DecidableEq, Repr

structure Tls where
  insecure : Bool
  deriving DecidableEq, Repr

structure Kubernetes where
  space : String
  deriving DecidableEq, Repr

structure Log where
  level : String
  json : Bool
  deriving DecidableEq, Repr

structure Metrics where
  port : UInt16
  deriving DecidableEq, Repr

end Settings

/-- The settings of the service. -/
structure Settings where
  debug : Bool
  engines : List String
  storage : Settings.Storage
  passes : Settings.Passes
  directory : Settings.DirectoryAccess
  http : Settings.Http
  tls : Settings.Tls
  kubernetes : Settings.Kubernetes
  log : Settings.Log
  metrics : Settings.Metrics
  deriving DecidableEq, Repr

namespace Settings

open Schema

/-! ## Defaults -/

def Storage.standard : Storage := ⟨"acl.db"⟩

def Passes.standard : Passes := ⟨.ofInt 60, false, .ofInt 300, .ofInt 20, .ofInt 120⟩

def DirectoryAccess.standard : DirectoryAccess := ⟨"", ""⟩

def Http.standard : Http := ⟨.ofInt 60⟩

def Tls.standard : Tls := ⟨false⟩

def Kubernetes.standard : Kubernetes := ⟨"tsuru"⟩

def Log.standard : Log := ⟨"info", false⟩

def Metrics.standard : Metrics := ⟨0⟩

/-- The settings when nothing is said. -/
def standard : Settings where
  debug := false
  engines := ["acl-operator"]
  storage := .standard
  passes := .standard
  directory := .standard
  http := .standard
  tls := .standard
  kubernetes := .standard
  log := .standard
  metrics := .standard

/-! ## Reading -/

def Storage.read : Reader Storage :=
  record ["path"] fun es => Storage.mk <$> field es "path" Schema.text Storage.standard.path

def Passes.read : Reader Passes :=
  let seconds (es : Entries) (n : String) (default : Binary64) := field es n positiveFloat default
  record ["interval", "disabled", "lock_expire", "keepalive_interval", "shutdown_timeout"] fun es =>
    Passes.mk <$> seconds es "interval" Passes.standard.interval <*>
      field es "disabled" Schema.bool false <*>
      seconds es "lock_expire" Passes.standard.lockExpire <*>
      seconds es "keepalive_interval" Passes.standard.keepAliveInterval <*>
      seconds es "shutdown_timeout" Passes.standard.shutdownTimeout

def DirectoryAccess.read : Reader DirectoryAccess :=
  record ["host", "token"] fun es =>
    DirectoryAccess.mk <$> field es "host" Schema.text "" <*> field es "token" Schema.text ""

def Http.read : Reader Http :=
  record ["timeout"] fun es => Http.mk <$> field es "timeout" positiveFloat Http.standard.timeout

def Tls.read : Reader Tls :=
  record ["insecure"] fun es => Tls.mk <$> field es "insecure" Schema.bool false

/-- A text that is not empty. -/
def someText : Reader String := fun v => (Schema.text v).ensure (!·.isEmpty) .textTooShort

def Kubernetes.read : Reader Kubernetes :=
  record ["namespace"] fun es =>
    Kubernetes.mk <$> field es "namespace" someText Kubernetes.standard.space

def Log.read : Reader Log :=
  let json := also "json" "json_output"
  record ["level", json] fun es =>
    Log.mk <$> field es "level" Schema.text Log.standard.level <*> field es json Schema.bool false

/-- The number of a port. -/
def readPort : Reader UInt16 := fun v => (intWithin 0 65535 v).map fun n => .ofNat n.toNat

def Metrics.read : Reader Metrics :=
  record ["port"] fun es => Metrics.mk <$> field es "port" readPort Metrics.standard.port

/-- The settings of a document. -/
def read : Reader Settings :=
  record ["debug", "engines", "storage", "sync", "tsuru", "http", "tls", "kubernetes", "log",
      "metrics"] fun es =>
    Settings.mk <$> field es "debug" Schema.bool false <*>
      field es "engines" (list Schema.text) standard.engines <*>
      field es "storage" Storage.read .standard <*> field es "sync" Passes.read .standard <*>
      field es "tsuru" DirectoryAccess.read .standard <*> field es "http" Http.read .standard <*>
      field es "tls" Tls.read .standard <*> field es "kubernetes" Kubernetes.read .standard <*>
      field es "log" Log.read .standard <*> field es "metrics" Metrics.read .standard

/-- The name of the schema of settings. -/
def schema : String := "AclConfig"

/-- The settings of a document, as an operation that may fail. -/
def ofDocument (v : Value) : Except Failure Settings :=
  match (read v).reported schema with
  | .ok s => .ok s
  | .error report => .error (.mismatch report)

/-- The settings of a YAML text; one that holds a blank document changes nothing. -/
def ofYaml (s : String) : Except Failure Settings := do
  let v ← Yaml.parse s
  ofDocument (if v.isBlank then .map [] else v)

/-! ## Writing -/

/-- The settings as a document, none left out. -/
def document (s : Settings) : Value :=
  .record [("debug", .bool s.debug), ("engines", .list (s.engines.map .text)),
    ("storage", .record [("path", .text s.storage.path)]),
    ("sync", .record [("interval", .float s.passes.interval), ("disabled", .bool s.passes.disabled),
      ("lock_expire", .float s.passes.lockExpire),
      ("keepalive_interval", .float s.passes.keepAliveInterval),
      ("shutdown_timeout", .float s.passes.shutdownTimeout)]),
    ("tsuru", .record [("host", .text s.directory.host), ("token", .text s.directory.token)]),
    ("http", .record [("timeout", .float s.http.timeout)]),
    ("tls", .record [("insecure", .bool s.tls.insecure)]),
    ("kubernetes", .record [("namespace", .text s.kubernetes.space)]),
    ("log", .record [("level", .text s.log.level), ("json", .bool s.log.json)]),
    ("metrics", .record [("port", .int s.metrics.port.toNat)])]

/-- The level of messages in effect; debugging shows all of them. -/
def logLevel (s : Settings) : String := if s.debug then "debug" else s.log.level

end Settings

end AccessRules
