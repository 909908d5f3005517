import AccessRules.Fault

/-!
# Calls for resources of a cluster

Rules start from apps and from jobs, which clusters keep as resources of two kinds.  A resource is
read and patched by calls of the cluster's interface.  A resource that is not there reads as
nothing; every other refusal is a failure.
-/

namespace AccessRules.Resource

/-- The kinds of resources that rules start from. -/
inductive Kind where
  | app
  | cronJob
  deriving DecidableEq, Repr

/-- The name of a kind. -/
def Kind.name : Kind → String
  | .app => "App"
  | .cronJob => "CronJob"

/-- Where a resource of some kind is kept. -/
structure Key where
  space : String
  name : String
  deriving DecidableEq, Repr

/-- What can be done with a resource. -/
inductive Action where
  | get
  | patch
  deriving DecidableEq, Repr

/-- The name of an action. -/
def Action.name : Action → String
  | .get => "get"
  | .patch => "patch"

/-- Why a cluster refused a call. -/
structure Refusal where
  status : Option Int
  reason : Option String
  deriving DecidableEq, Repr

/-- The failure of a refused call. -/
def Refusal.failure (kind : Kind) (key : Key) (r : Refusal) : Failure :=
  .fault (.saying (.resource kind.name key.space key.name r.status)
    (kind.name ++ " " ++ key.space ++ "/" ++ key.name ++ ": " ++ Cause.statusText r.status ++ " " ++
      r.reason.getD "None"))

/-- A call for a resource. -/
inductive Call where
  | get (kind : Kind) (key : Key)
  | patch (kind : Kind) (key : Key) (change : Value)
  deriving Repr

/-- What a cluster answers to a call. -/
inductive Reply where
  | object (v : Value)
  | refused (r : Refusal)
  deriving Repr

namespace Call

/-- The group, version and plural under which apps are kept. -/
def appCoordinates : String × String × String := ("tsuru.io", "v1", "apps")

/-- The format of patches. -/
def patchFormat : String := "application/merge-patch+json"

def kind : Call → Kind
  | .get k _ => k
  | .patch k _ _ => k

def key : Call → Key
  | .get _ k => k
  | .patch _ k _ => k

def action : Call → Action
  | .get .. => .get
  | .patch .. => .patch

/-- The operation of the cluster's interface. -/
def operation (c : Call) : String :=
  match c.action, c.kind with
  | .get, .app => "get_namespaced_custom_object"
  | .patch, .app => "patch_namespaced_custom_object"
  | .get, .cronJob => "read_namespaced_cron_job"
  | .patch, .cronJob => "patch_namespaced_cron_job"

/-- The change a call asks for. -/
def changes : Call → List Value
  | .get .. => []
  | .patch _ _ change => [change]

/-- The arguments of the operation. -/
def arguments (c : Call) : List Value :=
  let (group, version, plural) := appCoordinates
  (match c.kind with
    | .app => [group, version, c.key.space, plural, c.key.name].map Value.text
    | .cronJob => [c.key.name, c.key.space].map Value.text) ++ c.changes

/-- The options of the operation. -/
def options (timeout : Value) (c : Call) : List (String × Value) :=
  (match c.action with
    | .get => []
    | .patch => [("_content_type", .text patchFormat)]) ++ [("_request_timeout", timeout)]

/-- What a reply to a call means: the resource, or nothing where there was none to read. -/
def result (c : Call) : Reply → Except Failure (Option Value)
  | .object v => .ok (some v)
  | .refused r =>
    if c.action = .get && r.status = some 404 then .ok none
    else .error (r.failure c.kind c.key)

end Call

end AccessRules.Resource
