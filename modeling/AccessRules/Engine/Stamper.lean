import AccessRules.Engine.Basic
import AccessRules.Resolution.Cache
import AccessRules.Resource.Collection
import AccessRules.Resource.Stamping

/-!
# Engines that stamp resources

The agent that enforces rules works anew on a source when the stamp of its resource changes.  So the
source of a rule is reconciled by finding its resource and renewing a stale stamp.  One engine does
this for apps, all of which are kept in one space, and one for jobs, which are kept in a space for
each pool.
-/

namespace AccessRules.Engine

open Calendar Resolution Resource

/-- An engine that stamps resources of one kind below a space. -/
structure Stamper where
  kind : Resource.Kind
  space : String
  windows : Stamp.Windows
  deriving DecidableEq, Repr

/-- How the source of a rule is resolved, changing a state. -/
abbrev Resolver (ρ : Type) := Endpoint → ρ → Except Failure (Option Target) × ρ

namespace Stamper

/-- The name under which an engine is enabled. -/
def name (s : Stamper) : String :=
  match s.kind with
  | .app => "acl-operator"
  | .cronJob => "acl-operator-job"

/-- What sort of engine it is. -/
def sort (s : Stamper) : String :=
  match s.kind with
  | .app => "AppOperatorStrategy"
  | .cronJob => "JobOperatorStrategy"

/-- The name of the resource of an endpoint, if it is of the kind of the engine. -/
def resourceName? (s : Stamper) (e : Endpoint) : Option String :=
  match s.kind with
  | .app => e.app.map (·.name)
  | .cronJob => e.job.map (·.name)

/-- The space in which the resource of a target is kept. -/
def spaceOf (s : Stamper) (t : Target) : String :=
  match s.kind with
  | .app => s.space
  | .cronJob => s.space ++ "-" ++ t.pool

/-- What is said of a rule whose resource was stamped. -/
def stamped (s : Stamper) : Report := .value (.text ("triggered " ++ s.name))

/-- What is said of a rule whose resource had a fresh stamp. -/
def wasFresh (s : Stamper) : Report := .value (.text ("triggered " ++ s.name ++ " in the last minute"))

/-- Renews the stamp of a resource if it is stale. -/
def renew (s : Stamper) (now : Instant) (rule : Rule) (key : Key) (c : Collection) :
    Except Failure Report × Collection :=
  match c.get key with
  | (.error f, c) => (.error f, c)
  | (.ok none, c) => (.ok .nothing, c)
  | (.ok (some resource), c) =>
    match Stamp.change? s.windows rule.created now resource with
    | .error f => (.error f, c)
    | .ok none => (.ok s.wasFresh, c)
    | .ok (some change) =>
      let (patched, c) := c.patch key change
      (patched.map fun _ => s.stamped, c)

/-- The failure of an engine that is asked to reconcile when no pass is on. -/
def noPass (s : Stamper) : Failure := .runtime (s.name ++ ": reconcile called outside a pass")

/-- Reconciles a rule; the resolver is there as long as a pass is on. -/
def reconcile {ρ : Type} (s : Stamper) (resolver : Option (Resolver ρ)) (now : Instant) (rule : Rule)
    (state : ρ) (c : Collection) : Except Failure Report × ρ × Collection :=
  match s.resourceName? rule.source, resolver with
  | none, _ => (.ok .nothing, state, c)
  | some _, none => (.error s.noPass, state, c)
  | some name, some resolve =>
    match resolve rule.source state with
    | (.error f, state) => (.error f, state, c)
    | (.ok none, state) => (.ok .nothing, state, c)
    | (.ok (some target), state) =>
      if name.isEmpty then (.ok .nothing, state, c)
      else
        let (report, c) := s.renew now rule ⟨s.spaceOf target, name⟩ c
        (report, state, c)

end Stamper

/-- What stamping engines work on in a pass: what was resolved, and the resources. -/
structure Workshop where
  cache : Cache
  apps : Collection
  jobs : Collection
  deriving Repr

namespace Workshop

/-- The resources of a kind. -/
def collection (w : Workshop) : Resource.Kind → Collection
  | .app => w.apps
  | .cronJob => w.jobs

/-- The workshop with the resources of a kind replaced. -/
def withCollection (w : Workshop) (c : Collection) : Resource.Kind → Workshop
  | .app => { w with apps := c }
  | .cronJob => { w with jobs := c }

end Workshop

/-- A stamping engine as one of the engines of a pass, over a connection to the directory. -/
def Stamper.engine (connection : Directory.Connection) (s : Stamper) : Engine Workshop where
  name := s.name
  sort := s.sort
  reconcile rule surroundings :=
    let w := surroundings.state
    let (report, cache, c) := s.reconcile (some (Cache.resolve connection)) surroundings.now rule
      w.cache (w.collection s.kind)
    (report, { surroundings with state := { w with cache := cache }.withCollection c s.kind })

end AccessRules.Engine
