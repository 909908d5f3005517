import AccessRules.Directory.Basic
import AccessRules.Fault
import AccessRules.Resolution.Target

/-!
# Access to clusters

The directory describes how to reach a cluster either with ready-made sections for its server and
its user, or by addresses, certificates and credentials.  Either becomes one document with a single
server, a single user and the context that joins them, all under the name of the cluster.
-/

namespace AccessRules.Resolution

open Directory

/-- A text member, unless it is empty. -/
def given (name value : String) : Members := if value.isEmpty then [] else [(name, .text value)]

/-- The credentials of the user of a cluster: user name and password together, or else a token. -/
def credentials (data : List (String × String)) : Members :=
  let get (name : String) : String := (data.lookup name).getD ""
  let user := get "username"
  let password := get "password"
  let token := get "token"
  if !user.isEmpty && !password.isEmpty then [("username", .text user), ("password", .text password)]
  else given "token" token

/-- The sections for the server and the user of a cluster.  Of several addresses the first is
used. -/
def sections (c : Cluster) : Except Failure Access :=
  match c.access, c.addresses with
  | some access, _ => .ok access
  | none, [] => .error (.fault (.saying (.unresolved c.name) "no addresses for cluster"))
  | none, address :: _ =>
    .ok ⟨("server", .text address) :: given "certificate-authority-data" c.authority,
      given "client-certificate-data" c.clientCert ++ given "client-key-data" c.clientKey ++
        credentials c.customData⟩

/-- The document by which a cluster is reached. -/
def accessTo (c : Cluster) : Except Failure Members := do
  let access ← sections c
  let name := Value.text c.name
  .ok [("apiVersion", .text "v1"), ("kind", .text "Config"), ("current-context", name),
    ("clusters", .list [.record [("name", name), ("cluster", .record access.cluster)]]),
    ("users", .list [.record [("name", name), ("user", .record access.user)]]),
    ("contexts", .list [.record [("name", name),
      ("context", .record [("cluster", name), ("user", name)])]])]

end AccessRules.Resolution
