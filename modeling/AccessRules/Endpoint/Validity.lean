import AccessRules.Endpoint.Basic
import AccessRules.Endpoint.Name
import AccessRules.Endpoint.Network

/-!
# Valid endpoints

A valid endpoint has exactly one kind set, that kind is still in use, and its target is well
formed.  The checks of the targets run in a fixed order, and the first flaw found is reported; the
number of kinds is looked at after them and the ports last of all.
-/

namespace AccessRules.Endpoint

/-- What may be wrong with an endpoint. -/
inductive Flaw where
  | appWithoutName
  | appWithBothNames
  | appName
  | jobWithoutName
  | jobName
  | rpaasIncomplete
  | rpaasService
  | rpaasInstance
  | dnsWithoutName
  | dnsName (flaws : List Name.DomainFlaw)
  | dnsInternal
  | ipWithoutAddress
  | ipAddress (completed : String)
  | ipVersion
  | ipTooLarge
  | serviceRetired
  | notOneKind
  | port (flaw : Port.Flaw)
  deriving DecidableEq, Repr

/-- The words for a flaw. -/
def Flaw.reason : Flaw → String
  | .appWithoutName => "cannot have empty tsuru app name and pool name"
  | .appWithBothNames => "cannot set both app name and pool name"
  | .appName => "invalid app name"
  | .jobWithoutName => "cannot have empty tsuru job name"
  | .jobName => "invalid job name"
  | .rpaasIncomplete => "cannot have empty rpaas serviceName or instance"
  | .rpaasService => "Invalid rpaas service name"
  | .rpaasInstance => "Invalid rpaas instance name"
  | .dnsWithoutName => "cannot have empty external dns name"
  | .dnsName flaws =>
    "DNS Rule: Name must be a valid DNS name, " ++
      ", ".intercalate (flaws.map Name.DomainFlaw.message)
  | .dnsInternal => "DNS Rule: Name must not be a cluster internal address"
  | .ipWithoutAddress => "cannot have empty external ip address"
  | .ipAddress completed =>
    "IP Rule: Invalid IP, " ++ Text.quoted completed ++
      " does not appear to be an IPv4 or IPv6 network"
  | .ipVersion => "IP Rule: Invalid IP, IPv6 is not supported yet"
  | .ipTooLarge => "IP Rule: Large CIDR, the maximum size of network without ports is /22"
  | .serviceRetired =>
    "Kubernetes Service Rule: has been deactivated for use, " ++
      "please use instead: App or RPaaS destinations"
  | .notOneKind => "exactly one rule type must be set"
  | .port flaw => flaw.reason

/-- The fewest leading bits a network without ports has to fix. -/
def leastPrefix : Nat := 22

/-- The ending of names inside a cluster. -/
def internalSuffix : String := "cluster.local"

def App.flaw? (a : App) : Option Flaw :=
  if a.name.isEmpty && a.pool.isEmpty then some .appWithoutName
  else if !a.name.isEmpty && !a.pool.isEmpty then some .appWithBothNames
  else if !a.name.isEmpty && !Name.isWorkload a.name then some .appName
  else none

def Job.flaw? (j : Job) : Option Flaw :=
  if j.name.isEmpty then some .jobWithoutName
  else if !Name.isWorkload j.name then some .jobName
  else none

def Rpaas.flaw? (r : Rpaas) : Option Flaw :=
  if r.service.isEmpty || r.inst.isEmpty then some .rpaasIncomplete
  else if !Name.isLabel r.service then some .rpaasService
  else if !Name.isLabel r.inst then some .rpaasInstance
  else none

/-- A name without a single point in front, which stands for every name below it. -/
def withoutWildcard (name : String) : String :=
  match name.toList with
  | '.' :: rest => String.ofList rest
  | _ => name

/-- Whether a text ends with another. -/
def endsWith (s ending : String) : Bool := ending.toList.isSuffixOf s.toList

def Dns.flaw? (d : Dns) : Option Flaw :=
  if d.name.isEmpty then some .dnsWithoutName
  else
    let flaws := Name.domainFlaws (withoutWildcard d.name)
    if !flaws.isEmpty then some (.dnsName flaws)
    else if endsWith d.name internalSuffix then some .dnsInternal
    else none

def Ip.flaw? (i : Ip) : Option Flaw :=
  if i.address.isEmpty then some .ipWithoutAddress
  else match Network.ofText? i.address with
    | none => some (.ipAddress (Network.complete i.address))
    | some network =>
      if network.isV6 then some .ipVersion
      else if network.prefixLength < leastPrefix && (i.ports.getD []).isEmpty then some .ipTooLarge
      else none

/-- How many kinds are set. -/
def kindCount (e : Endpoint) : Nat := Kind.all.countP e.has

/-- The ports an endpoint is restricted to: those of its network, else those of its host name. -/
def ports (e : Endpoint) : List Port :=
  match e.ip, e.dns with
  | some i, _ => i.ports.getD []
  | none, some d => d.ports.getD []
  | none, none => []

/-- The first flaw of an endpoint. -/
def flaw? (e : Endpoint) : Option Flaw :=
  (e.app.bind App.flaw?) <|> (e.job.bind Job.flaw?) <|> (e.rpaas.bind Rpaas.flaw?) <|>
    (e.dns.bind Dns.flaw?) <|> (e.ip.bind Ip.flaw?) <|>
    (if e.service.isSome then some .serviceRetired else none) <|>
    (if e.kindCount ≠ 1 then some .notOneKind else none) <|>
    (Port.firstFlaw? e.ports).map Flaw.port

/-- Whether an endpoint may stand in a stored rule. -/
def isValid (e : Endpoint) : Bool := e.flaw?.isNone

end AccessRules.Endpoint
