import AccessRules.Schema.Record

/-!
# Entries of the directory

The directory knows apps and jobs with the pools they run in, pools with what provisions them, and
clusters.  Its answers hold much more than is read here, so members that are not asked for are left
alone.
-/

namespace AccessRules

/-- Members of a map with text keys. -/
abbrev Members := List (String × Value)

namespace Directory

open Schema

/-- An app or a job, and the pool it runs in. -/
structure Workload where
  name : String
  pool : String
  deriving DecidableEq, Repr

/-- A pool and what provisions it. -/
structure Pool where
  name : String
  provisioner : String
  deriving DecidableEq, Repr

/-- What a cluster says about how to reach it: the server and the user. -/
structure Access where
  cluster : Members
  user : Members
  deriving Repr

/-- A cluster. -/
structure Cluster where
  name : String
  provisioner : String
  isDefault : Bool
  pools : List String
  addresses : List String
  authority : String
  clientCert : String
  clientKey : String
  customData : List (String × String)
  access : Option Access
  deriving Repr

/-- A text member that is empty when it is not given. -/
def textMember (es : Entries) (n : Name) : Check String := field es n Schema.text ""

def Workload.read : Reader Workload :=
  laxRecord fun es =>
    Workload.mk <$> textMember es (also "name" "Name") <*> textMember es (also "pool" "Pool")

def Workload.document (w : Workload) : Value :=
  .record [("name", .text w.name), ("pool", .text w.pool)]

def Pool.read : Reader Pool :=
  laxRecord fun es =>
    Pool.mk <$> textMember es (also "name" "Name") <*>
      textMember es (also "provisioner" "Provisioner")

def Pool.document (p : Pool) : Value :=
  .record [("name", .text p.name), ("provisioner", .text p.provisioner)]

def Access.read : Reader Access :=
  laxRecord fun es =>
    Access.mk <$> field es "cluster" (textMap anything) [] <*>
      field es "user" (textMap anything) []

def Access.document (a : Access) : Value :=
  .record [("cluster", .record a.cluster), ("user", .record a.user)]

def Cluster.read : Reader Cluster :=
  laxRecord fun es =>
    Cluster.mk <$> textMember es "name" <*> textMember es "provisioner" <*>
      field es "default" Schema.bool false <*> field es "pools" (list Schema.text) [] <*>
      field es "addresses" (list Schema.text) [] <*>
      textMember es (also "cacert" "ca_cert") <*>
      textMember es (also "clientcert" "client_cert") <*>
      textMember es (also "clientkey" "client_key") <*>
      field es (also "customData" "custom_data") (textMap Schema.text) [] <*>
      field es (also "kubeConfig" "kube_config") (optional Access.read) none

def Cluster.document (c : Cluster) : Value :=
  .record [("name", .text c.name), ("provisioner", .text c.provisioner),
    ("default", .bool c.isDefault), ("pools", .list (c.pools.map .text)),
    ("addresses", .list (c.addresses.map .text)), ("cacert", .text c.authority),
    ("clientcert", .text c.clientCert), ("clientkey", .text c.clientKey),
    ("customData", .record (c.customData.map fun (k, v) => (k, .text v))),
    ("kubeConfig", match c.access with
      | some a => a.document
      | none => .null)]

end Directory

end AccessRules
