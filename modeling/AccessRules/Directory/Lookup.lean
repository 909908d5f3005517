import AccessRules.Directory.Basic
import AccessRules.Document.Misuse
import AccessRules.Http.Exchange

/-!
# Looking things up in the directory

The directory answers over the web where an app or a job runs and which clusters there are.
Whatever it answered well is remembered, and so is that it does not know an app or a job; any other
failure is forgotten, so the next look-up asks again.

A `Lookup` says what is asked for a name and how the response is read; `Memory` holds what is known
and the requests sent so far.  All answers come from a `Http.Server`, which may answer the same
question differently each time.
-/

namespace AccessRules.Directory

open Http

/-! ## Responses -/

/-- The failure of an answer that does not hold what was asked for. -/
def badAnswer (endpoint message : String) : Failure :=
  .fault (.saying (.directoryAnswer endpoint "" none) message)

/-- A document read by a schema, its mismatches being those of the answer of `endpoint`. -/
def decode {α : Type} (schema : String) (read : Schema.Reader α) (endpoint : String) (v : Value) :
    Except Failure α :=
  match (read v).reported schema with
  | .ok a => .ok a
  | .error report => .error (.fault (.of (.directoryAnswer endpoint report.headline report)))

/-- The headers in which a server may name the request it answers, the preferred one first. -/
def requestIdHeaders : List String := ["X-Request-ID", "X-RID", "X-Requestid"]

/-- The name a server gave to the request it answers. -/
def requestId (r : Response) : String :=
  ((requestIdHeaders.map r.header).find? (!·.isEmpty)).getD ""

/-- The document in a response to a request for `path`. -/
def document (path : String) (r : Response) : Except Failure Value :=
  if !r.isSuccess then
    .error (.fault (.of (.directoryStatus path r.status r.body (requestId r))))
  else match r.content with
    | .ok v => .ok v
    | .error (.invalid message) =>
      .error (.fault (.of (.directoryAnswer path
        ("unable to unmarshal data " ++ Text.quoted r.body ++ ": " ++ message) none)))
    | .error (.breakdown kind message) => .error (.breakdown kind message)

/-! ## What is known -/

/-- What is known about names: an answer, or that the directory does not know the name. -/
structure Shelf (α : Type) where
  known : List (String × α)
  missing : List (String × Fault)
  deriving Repr

namespace Shelf

variable {α : Type}

def empty : Shelf α := ⟨[], []⟩

/-- What is known about a name. -/
def about? (s : Shelf α) (name : String) : Option (Except Failure α) :=
  match s.known.lookup name with
  | some a => some (.ok a)
  | none => (s.missing.lookup name).map fun f => .error (.fault f)

/-- The shelf after an answer about a name; `keepsMissing` says whether an unknown name is worth
remembering. -/
def keep (keepsMissing : Bool) (name : String) (s : Shelf α) : Except Failure α → Shelf α
  | .ok a => { s with known := (name, a) :: s.known }
  | .error (.fault f) =>
    if keepsMissing && f.isNotFound then { s with missing := (name, f) :: s.missing } else s
  | .error _ => s

end Shelf

/-- What is known about the directory, and the requests that were sent to learn it, the oldest
first. -/
structure Memory where
  apps : Shelf Workload
  jobs : Shelf Workload
  pools : Shelf Pool
  clusters : Option (List Cluster)
  sent : List Request
  deriving Repr

/-- Nothing is known and nothing was sent. -/
def Memory.empty : Memory := ⟨.empty, .empty, .empty, none, []⟩

/-! ## Requests -/

/-- Where the directory is, how to be let in, and what answers there. -/
structure Connection where
  host : String
  token : String
  server : Server

namespace Connection

/-- The address given for the directory, without slashes at its end. -/
def base (c : Connection) : String :=
  String.ofList (c.host.toList.reverse.dropWhile (· == '/')).reverse

/-- Who asks. -/
def authorization (c : Connection) : Option String :=
  if c.token.isEmpty then none else some ("Bearer " ++ c.token)

/-- A failure to send a text with characters beyond ASCII. -/
def unencodable (s : String) : Failure :=
  let foreign (c : Char) : Bool := 0x80 ≤ c.toNat
  let cs := s.toList
  let start := (cs.findIdx? foreign).getD 0
  let run := (cs.drop start).takeWhile foreign
  .unencodable ("'ascii' codec can't encode character" ++
    (match run with
      | [c] => " '" ++ String.ofList (Text.numberEscape c) ++ "' in position " ++ toString start
      | _ => "s in position " ++ toString start ++ "-" ++ toString (start + run.length - 1)) ++
    ": ordinal not in range(128)")

/-- The request for a path of the directory. -/
def request (c : Connection) (path : String) : Except Failure Request := do
  let orFail {α : Type} : Except Flaw α → Except Failure α
    | .ok a => .ok a
    | .error flaw => .error (.badAddress flaw.message)
  let base ← orFail (Address.parse c.base)
  let base ← orFail base.asBase
  match c.authorization with
  | some s => if s.toList.all fun ch => ch.toNat < 0x80 then pure () else .error (unencodable s)
  | none => pure ()
  let address ← orFail (base.below path)
  .ok ⟨address, c.authorization⟩

/-- The failure of a request that got no response. -/
def noResponse (c : Connection) (path reason : String) : Failure :=
  .fault (.saying (.unresolved path) ("request to " ++ c.base ++ path ++ " failed: " ++ reason))

/-- Asks for the document at a path. -/
def fetch (c : Connection) (path : String) (m : Memory) : Except Failure Value × Memory :=
  match c.request path with
  | .error f => (.error f, m)
  | .ok r =>
    let answer := c.server.handle m.sent r
    let m := { m with sent := m.sent ++ [r] }
    match answer with
    | .response response => (document path response, m)
    | .failed reason => (.error (c.noResponse path reason), m)
    | .breakdown kind message => (.error (.breakdown kind message), m)

end Connection

/-! ## Look-ups by name -/

/-- How one kind of entry is looked up by name. -/
structure Lookup (α : Type) where
  path : String → String
  read : String → Value → Except Failure α
  shelf : Memory → Shelf α
  put : Shelf α → Memory → Memory
  keepsMissing : Bool

/-- Looks a name up: what is known about it, or else what the directory answers now. -/
def Lookup.run {α : Type} (l : Lookup α) (c : Connection) (name : String) (m : Memory) :
    Except Failure α × Memory :=
  match (l.shelf m).about? name with
  | some known => (known, m)
  | none =>
    let (v, m) := c.fetch (l.path name) m
    let answer := v.bind (l.read name)
    (answer, l.put ((l.shelf m).keep l.keepsMissing name answer) m)

/-- An app has a name and a pool. -/
def readApp (name : String) (v : Value) : Except Failure Workload := do
  let w ← decode "AppInfo" Workload.read ("/apps/" ++ name) v
  if w.name.isEmpty || w.pool.isEmpty then
    .error (badAnswer name ("empty data for app " ++ Text.quoted name))
  else .ok w

/-- A job comes in an envelope. -/
def readJob (name : String) (v : Value) : Except Failure Workload :=
  match v.get? "job" with
  | none => .error (badAnswer name ("empty data for job " ++ Text.quoted name))
  | some job =>
    if job.isBlank then .error (badAnswer name ("empty data for job " ++ Text.quoted name))
    else decode "JobInfo" Workload.read name job

/-- A pool has a name. -/
def readPool (name : String) (v : Value) : Except Failure Pool := do
  let p ← decode "PoolInfo" Pool.read ("/pools/" ++ name) v
  if p.name.isEmpty then .error (badAnswer name ("pool " ++ Text.quoted name ++ " not found"))
  else .ok p

def Lookup.app : Lookup Workload :=
  ⟨("/apps/" ++ ·), readApp, (·.apps), fun s m => { m with apps := s }, true⟩

def Lookup.job : Lookup Workload :=
  ⟨("/jobs/" ++ ·), readJob, (·.jobs), fun s m => { m with jobs := s }, true⟩

def Lookup.pool : Lookup Pool :=
  ⟨("/pools/" ++ ·), readPool, (·.pools), fun s m => { m with pools := s }, false⟩

/-! ## Clusters -/

/-- The path of the list of clusters. -/
def clustersPath : String := "/provisioner/clusters"

/-- A list of clusters; a blank document is an empty list. -/
def readClusters (v : Value) : Except Failure (List Cluster) :=
  if v.isBlank then .ok []
  else do (← v.parts).mapM (decode "ClusterInfo" Cluster.read "clusters")

/-- All clusters. -/
def clusters (c : Connection) (m : Memory) : Except Failure (List Cluster) × Memory :=
  match m.clusters with
  | some cs => (.ok cs, m)
  | none =>
    match c.fetch clustersPath m with
    | (v, m) =>
      match v.bind readClusters with
      | .ok cs => (.ok cs, { m with clusters := some cs })
      | .error f => (.error f, m)

/-- The provisioner whose clusters and pools are served. -/
def kubernetes : String := "kubernetes"

/-- Whether a cluster is one of those that are served. -/
def Cluster.isServed (c : Cluster) : Bool := c.provisioner == kubernetes

/-- Whether a pool is one of those that are served. -/
def Pool.isServed (p : Pool) : Bool := p.provisioner == kubernetes

/-- The served cluster of a name. -/
def named? (name : String) (cs : List Cluster) : Option Cluster :=
  cs.find? fun c => c.isServed && c.name == name

/-- The served cluster of a pool: the first that lists it, or else the last that is a default. -/
def owner? (pool : String) (cs : List Cluster) : Option Cluster :=
  let served := cs.filter Cluster.isServed
  match served.find? (·.pools.contains pool) with
  | some c => some c
  | none => (served.filter (·.isDefault)).getLast?

/-- The served cluster of a name, or the failure to find one. -/
def cluster (c : Connection) (name : String) (m : Memory) : Except Failure Cluster × Memory :=
  let (cs, m) := clusters c m
  (cs.bind fun cs => match named? name cs with
    | some found => .ok found
    | none => .error (.fault (.of (.clusterNotFound name ""))), m)

/-- The cluster of a pool, or the failure to find one. -/
def poolCluster (c : Connection) (pool : Pool) (m : Memory) : Except Failure Cluster × Memory :=
  if !pool.isServed then (.error (.fault (.of (.notKubernetesPool pool.name pool.name))), m)
  else
    let (cs, m) := clusters c m
    (cs.bind fun cs => match owner? pool.name cs with
      | some found => .ok found
      | none => .error (.fault (.of (.clusterNotFound pool.name pool.name))), m)

end AccessRules.Directory
