import AccessRules.Directory.Lookup
import AccessRules.Endpoint.Basic
import AccessRules.Resolution.Access

/-!
# Questions of resolution

Only apps and jobs are resolved: an app through its name or that of a pool, a job through its name.
Either leads to a pool, and the pool to the cluster that serves it.  A pool that is not one of the
clusters' has nothing to reconcile and resolves to nothing.
-/

namespace AccessRules.Resolution

open Directory

/-- What has to be asked to resolve an endpoint. -/
inductive Question where
  | app (a : Endpoint.App)
  | job (j : Endpoint.Job)
  deriving DecidableEq, Repr

namespace Question

/-- The question an endpoint raises; only apps and jobs raise any. -/
def of? (e : Endpoint) : Option Question :=
  match e.kind? with
  | some .app => e.app.map .app
  | some .job => e.job.map .job
  | _ => none

/-- What a question is about, in a word. -/
def label : Question → String
  | .app a => if a.name.isEmpty then a.pool else a.name
  | .job j => j.name

/-- The failure of an endpoint that names nothing. -/
def namesNothing : Failure := .fault (.of (.emptyEndpoint ""))

/-- The pool a question leads to. -/
def pool (c : Connection) (m : Memory) : Question → Except Failure String × Memory
  | .app a =>
    if !a.name.isEmpty then
      let (w, m) := Lookup.app.run c a.name m
      (w.map (·.pool), m)
    else if !a.pool.isEmpty then (.ok a.pool, m)
    else (.error namesNothing, m)
  | .job j =>
    if !j.name.isEmpty then
      let (w, m) := Lookup.job.run c j.name m
      (w.map (·.pool), m)
    else (.error namesNothing, m)

/-- The target of a pool. -/
def targetOf (c : Connection) (m : Memory) (p : Pool) : Except Failure Target × Memory :=
  let (found, m) := poolCluster c p m
  (found.bind fun cluster => (accessTo cluster).map fun access => ⟨cluster.name, access, p.name⟩, m)

/-- The target a name of a pool leads to, or nothing if no cluster serves such pools. -/
def ofPool (c : Connection) (m : Memory) (name : String) : Except Failure (Option Target) × Memory :=
  match Lookup.pool.run c name m with
  | (.error f, m) => (.error f, m)
  | (.ok p, m) =>
    if p.isServed then
      let (target, m) := targetOf c m p
      (target.map some, m)
    else (.ok none, m)

/-- The answer to a question. -/
def answer (c : Connection) (m : Memory) (q : Question) : Except Failure (Option Target) × Memory :=
  match q.pool c m with
  | (.error f, m) => (.error f, m)
  | (.ok name, m) => ofPool c m name

end Question

/-- What an endpoint resolves to. -/
def resolve (c : Connection) (m : Memory) (e : Endpoint) : Except Failure (Option Target) × Memory :=
  match Question.of? e with
  | none => (.ok none, m)
  | some q => q.answer c m

end AccessRules.Resolution
