import AccessRules.Document.Json
import AccessRules.Endpoint.Port

/-!
# Endpoints

The abstract ends of a rule.  An endpoint may have any of six kinds set, each with its own target;
a valid one has exactly one (`Endpoint.Validity`).  Kinds stand in a fixed order: the first one
that is set is the kind of the endpoint.

An endpoint's document has a member for each kind that is set, under the name of that kind, and its
canonical JSON form tells it apart from every other endpoint.
-/

namespace AccessRules

namespace Endpoint

/-- An app by name, or every app of a pool. -/
structure App where
  name : String
  pool : String
  deriving DecidableEq, Repr

/-- A job by name. -/
structure Job where
  name : String
  deriving DecidableEq, Repr

/-- A service of a cluster. -/
structure Service where
  space : String
  name : String
  cluster : String
  deriving DecidableEq, Repr

/-- A host name, perhaps restricted to ports. -/
structure Dns where
  name : String
  ports : Option (List Port)
  wholeNetwork : Bool
  deriving DecidableEq, Repr

/-- An address or network, perhaps restricted to ports. -/
structure Ip where
  address : String
  ports : Option (List Port)
  wholeNetwork : Bool
  deriving DecidableEq, Repr

/-- An instance of a proxy service. -/
structure Rpaas where
  service : String
  inst : String
  deriving DecidableEq, Repr

/-- The kinds of endpoint, in their order. -/
inductive Kind where
  | app
  | job
  | service
  | dns
  | ip
  | rpaas
  deriving DecidableEq, Repr

/-- All kinds, in their order. -/
def Kind.all : List Kind := [.app, .job, .service, .dns, .ip, .rpaas]

/-- The name of a kind in documents. -/
def Kind.name : Kind → String
  | .app => "TsuruApp"
  | .job => "TsuruJob"
  | .service => "KubernetesService"
  | .dns => "ExternalDNS"
  | .ip => "ExternalIP"
  | .rpaas => "RpaasInstance"

end Endpoint

/-- One end of a rule. -/
structure Endpoint where
  app : Option Endpoint.App
  job : Option Endpoint.Job
  service : Option Endpoint.Service
  dns : Option Endpoint.Dns
  ip : Option Endpoint.Ip
  rpaas : Option Endpoint.Rpaas
  deriving DecidableEq, Repr

namespace Endpoint

/-- The endpoint with no kind set. -/
def empty : Endpoint := ⟨none, none, none, none, none, none⟩

instance : Inhabited Endpoint := ⟨empty⟩

/-- Whether a kind is set. -/
def has (e : Endpoint) : Kind → Bool
  | .app => e.app.isSome
  | .job => e.job.isSome
  | .service => e.service.isSome
  | .dns => e.dns.isSome
  | .ip => e.ip.isSome
  | .rpaas => e.rpaas.isSome

/-- The first kind that is set. -/
def kind? (e : Endpoint) : Option Kind := Kind.all.find? e.has

/-! ## Reading -/

open Schema

/-- A text member that is empty when it is not given. -/
def textField (es : Entries) (n : Schema.Name) : Check String := field es n Schema.text ""

/-- The ports of a target: a list, or null for none given. -/
def portsField (es : Entries) (n : Schema.Name) : Check (Option (List Port)) :=
  field es n (optional (list Port.read)) none

def readApp : Reader App :=
  let name := also "AppName" "app_name"
  let pool := also "PoolName" "pool_name"
  record [name, pool] fun es => App.mk <$> textField es name <*> textField es pool

def readJob : Reader Job :=
  let name := also "JobName" "job_name"
  record [name] fun es => Job.mk <$> textField es name

def readService : Reader Service :=
  let space := also "Namespace" "namespace"
  let name := also "ServiceName" "service_name"
  let cluster := also "ClusterName" "cluster_name"
  record [space, name, cluster] fun es =>
    Service.mk <$> textField es space <*> textField es name <*> textField es cluster

def readDns : Reader Dns :=
  let name := also "Name" "name"
  let ports := also "Ports" "ports"
  let whole := also "SyncWholeNetwork" "sync_whole_network"
  record [name, ports, whole] fun es =>
    Dns.mk <$> textField es name <*> portsField es ports <*> field es whole Schema.bool false

def readIp : Reader Ip :=
  let address := also "IP" "ip"
  let ports := also "Ports" "ports"
  let whole := also "SyncWholeNetwork" "sync_whole_network"
  record [address, ports, whole] fun es =>
    Ip.mk <$> textField es address <*> portsField es ports <*> field es whole Schema.bool false

def readRpaas : Reader Rpaas :=
  let service := also "ServiceName" "service_name"
  let inst := also "Instance" "instance"
  record [service, inst] fun es => Rpaas.mk <$> textField es service <*> textField es inst

/-- The names of a kind in documents that are read. -/
def kindName (k : Kind) : Schema.Name :=
  also k.name (match k with
    | .app => "tsuru_app"
    | .job => "tsuru_job"
    | .service => "kubernetes_service"
    | .dns => "external_dns"
    | .ip => "external_ip"
    | .rpaas => "rpaas_instance")

/-- An endpoint of a document. -/
def read : Reader Endpoint :=
  record (Kind.all.map kindName) fun es =>
    Endpoint.mk <$> field es (kindName .app) (optional readApp) none <*>
      field es (kindName .job) (optional readJob) none <*>
      field es (kindName .service) (optional readService) none <*>
      field es (kindName .dns) (optional readDns) none <*>
      field es (kindName .ip) (optional readIp) none <*>
      field es (kindName .rpaas) (optional readRpaas) none

/-! ## Writing -/

/-- A member for the ports, unless none are given. -/
def portsMember : Option (List Port) → List (String × Value)
  | none => []
  | some ports => [("Ports", .list (ports.map Port.document))]

def App.document (a : App) : Value :=
  .record [("AppName", .text a.name), ("PoolName", .text a.pool)]

def Job.document (j : Job) : Value := .record [("JobName", .text j.name)]

def Service.document (s : Service) : Value :=
  .record [("Namespace", .text s.space), ("ServiceName", .text s.name),
    ("ClusterName", .text s.cluster)]

def Dns.document (d : Dns) : Value :=
  .record ([("Name", .text d.name)] ++ portsMember d.ports ++
    [("SyncWholeNetwork", .bool d.wholeNetwork)])

def Ip.document (i : Ip) : Value :=
  .record ([("IP", .text i.address)] ++ portsMember i.ports ++
    [("SyncWholeNetwork", .bool i.wholeNetwork)])

def Rpaas.document (r : Rpaas) : Value :=
  .record [("ServiceName", .text r.service), ("Instance", .text r.inst)]

/-- The document of the target of a kind, if that kind is set. -/
def target? (e : Endpoint) : Kind → Option Value
  | .app => e.app.map App.document
  | .job => e.job.map Job.document
  | .service => e.service.map Service.document
  | .dns => e.dns.map Dns.document
  | .ip => e.ip.map Ip.document
  | .rpaas => e.rpaas.map Rpaas.document

/-- An endpoint as a document: a member for each kind that is set. -/
def document (e : Endpoint) : Value :=
  .record (Kind.all.filterMap fun k => (e.target? k).map fun v => (k.name, v))

/-- The canonical form of an endpoint, under which its resolution is remembered. -/
def canonical (e : Endpoint) : String := Json.render .canonical e.document

/-- Ports and reach of an endpoint outside the clusters, as text. -/
def reachText (ports : Option (List Port)) (whole : Bool) : String :=
  Port.listText (ports.getD []) ++ (if whole then ", whole network" else "")

def App.text (a : App) : String :=
  if a.name.isEmpty && !a.pool.isEmpty then "Tsuru Pool: " ++ a.pool else "Tsuru APP: " ++ a.name

def Job.text (j : Job) : String := "Tsuru Job: " ++ j.name

def Service.text (s : Service) : String :=
  "Kubernetes Service: " ++ (if s.space.isEmpty then "default" else s.space) ++ "/" ++ s.name

def Dns.text (d : Dns) : String := "DNS: " ++ d.name ++ reachText d.ports d.wholeNetwork

def Ip.text (i : Ip) : String := "IP: " ++ i.address ++ reachText i.ports i.wholeNetwork

def Rpaas.text (r : Rpaas) : String := "Rpaas: " ++ r.service ++ "/" ++ r.inst

/-- The endpoint as one line of text: that of the first target set, services coming after all
targets outside the clusters. -/
def text (e : Endpoint) : String :=
  let texts := [e.app.map App.text, e.job.map Job.text, e.dns.map Dns.text, e.ip.map Ip.text,
    e.service.map Service.text, e.rpaas.map Rpaas.text]
  (texts.findSome? id).getD ""

end Endpoint

end AccessRules
