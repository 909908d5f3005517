import Mathlib.Logic.Basic
import AccessRules.Directory.Lookup

/-!
# What can be asked of the directory

**Program** — `Lookup.run` looks an app, a job or a pool up by its name, `clusters` lists all
clusters; both ask the directory only for what the memory does not hold.

**Spec** — a *topic* is an app, a job or a pool by its name, or the list of clusters.  What is known
about a topic is the answer to it, and nothing changes (`look_known`); otherwise the directory is
asked, and of everything that is known only the topic may change, whose answer is kept if it settles
the topic (`look_unknown`).

**Crux** — the three kinds of look-up differ in a path, a reader and a shelf, so what they do to a
shelf is said once (`Shelf.about?_keep`).  An answer settles a topic if it is accepted, or if it
says that an app or a job is unknown; such an answer can only come from a response of status 404
(`settles_verdict`), since no reader of documents fails in that way.
-/

namespace AccessRules.Directory

open Http

/-! ## Shelves -/

/-- Whether an answer says that the directory does not know the name. -/
def saysUnknown {α : Type} : Except Failure α → Bool
  | .error (.fault f) => f.isNotFound
  | _ => false

/-- Whether an answer is kept: it is accepted, or unknown names are worth remembering and it says
that the name is unknown. -/
def isKept {α : Type} (keepsMissing : Bool) (answer : Except Failure α) : Bool :=
  answer.isOk || (keepsMissing && saysUnknown answer)

theorem isKept_map {α β : Type} (keepsMissing : Bool) (f : α → β) (answer : Except Failure α) :
    isKept keepsMissing (answer.map f) = isKept keepsMissing answer := by
  cases answer with
  | ok a => rfl
  | error e => cases e <;> rfl

namespace Shelf

variable {α : Type}

/-- **An answer about a name of which nothing was known** is known afterwards if it is kept. -/
theorem about?_keep_self {s : Shelf α} {name : String} (h : s.about? name = none)
    (keepsMissing : Bool) (answer : Except Failure α) :
    (s.keep keepsMissing name answer).about? name =
      if isKept keepsMissing answer = true then some answer else none := by
  have hknown : s.known.lookup name = none := by
    rw [about?] at h
    split at h
    · cases h
    · assumption
  cases answer with
  | ok a => simp [keep, isKept, about?, Except.isOk, Except.toBool]
  | error e =>
    have hkept : isKept keepsMissing (.error e : Except Failure α) =
        (keepsMissing && saysUnknown (.error e : Except Failure α)) := rfl
    rw [hkept]
    cases e with
    | fault f =>
      rw [saysUnknown, keep]
      cases keepsMissing && f.isNotFound with
      | true => simp [about?, hknown]
      | false => simpa using h
    | _ => simpa [keep, saysUnknown] using h

/-- Nothing else becomes known. -/
theorem about?_keep_of_ne {name other : String} (h : other ≠ name) (s : Shelf α)
    (keepsMissing : Bool) (answer : Except Failure α) :
    (s.keep keepsMissing name answer).about? other = s.about? other := by
  have hbeq : (other == name) = false := beq_false_of_ne h
  cases answer with
  | ok a => simp only [keep, about?, List.lookup_cons, hbeq]
  | error e =>
    cases e with
    | fault f =>
      rw [keep]
      split
      · simp only [about?, List.lookup_cons, hbeq]
      · rfl
    | _ => rfl

end Shelf

/-! ## Requests -/

namespace Connection

/-- The document in what a server said about a path. -/
def heard (c : Connection) (path : String) : Answer → Except Failure Value
  | .response r => document path r
  | .failed reason => .error (c.noResponse path reason)
  | .breakdown kind message => .error (.breakdown kind message)

/-- **All that asking for a document can do**: nothing is sent, because there is no such request, or
one request is sent and the document is what was heard. -/
theorem fetch_cases (c : Connection) (path : String) (m : Memory) :
    (∃ f, c.request path = .error f ∧ c.fetch path m = (.error f, m)) ∨
    ∃ r, c.request path = .ok r ∧ c.fetch path m =
      (c.heard path (c.server.handle m.sent r), { m with sent := m.sent ++ [r] }) := by
  unfold fetch
  cases hrequest : c.request path with
  | error f => exact .inl ⟨f, rfl, rfl⟩
  | ok r =>
    refine .inr ⟨r, rfl, ?_⟩
    simp only
    cases c.server.handle m.sent r <;> rfl

/-- Asking leaves all that is known. -/
theorem fetch_memory (c : Connection) (path : String) (m : Memory) :
    (c.fetch path m).2 = { m with sent := (c.fetch path m).2.sent } := by
  rcases c.fetch_cases path m with ⟨f, _, heq⟩ | ⟨r, _, heq⟩ <;> rw [heq]

end Connection

/-! ## Topics -/

/-- What the directory can be asked about. -/
inductive Topic where
  | app (name : String)
  | job (name : String)
  | pool (name : String)
  | clusters
  deriving DecidableEq, Repr

/-- What the directory tells, or what is picked from that. -/
inductive Reply where
  | workload (w : Workload)
  | pool (p : Pool)
  | clusters (cs : List Cluster)
  | cluster (c : Cluster)
  deriving Repr

namespace Topic

/-- Where the directory keeps a topic. -/
def path : Topic → String
  | .app name => Lookup.app.path name
  | .job name => Lookup.job.path name
  | .pool name => Lookup.pool.path name
  | .clusters => clustersPath

/-- How a document about a topic is read. -/
def read : Topic → Value → Except Failure Reply
  | .app name, v => (readApp name v).map .workload
  | .job name, v => (readJob name v).map .workload
  | .pool name, v => (readPool name v).map .pool
  | .clusters, v => (readClusters v).map .clusters

/-- Whether it is remembered of a topic that the directory does not know it. -/
def keepsMissing : Topic → Bool
  | .app _ | .job _ => true
  | .pool _ | .clusters => false

/-- What is known about a topic. -/
def about? (m : Memory) : Topic → Option (Except Failure Reply)
  | .app name => (m.apps.about? name).map (·.map .workload)
  | .job name => (m.jobs.about? name).map (·.map .workload)
  | .pool name => (m.pools.about? name).map (·.map .pool)
  | .clusters => m.clusters.map fun cs => .ok (.clusters cs)

/-- Looks a topic up. -/
def look (c : Connection) (m : Memory) : Topic → Except Failure Reply × Memory
  | .app name => ((Lookup.app.run c name m).1.map .workload, (Lookup.app.run c name m).2)
  | .job name => ((Lookup.job.run c name m).1.map .workload, (Lookup.job.run c name m).2)
  | .pool name => ((Lookup.pool.run c name m).1.map .pool, (Lookup.pool.run c name m).2)
  | .clusters => ((Directory.clusters c m).1.map .clusters, (Directory.clusters c m).2)

/-- The answer to a topic in what a server said. -/
def verdict (c : Connection) (t : Topic) (answer : Answer) : Except Failure Reply :=
  (c.heard t.path answer).bind t.read

/-- Whether an answer settles a topic: it is accepted, or says that an app or a job is unknown. -/
def settles (t : Topic) (answer : Except Failure Reply) : Bool := isKept t.keepsMissing answer

end Topic

/-! ## Looking topics up -/

section Lookups

variable {α : Type} {l : Lookup α} {c : Connection} {name : String} {m : Memory}

theorem Lookup.run_known {known : Except Failure α} (h : (l.shelf m).about? name = some known) :
    l.run c name m = (known, m) := by
  rw [Lookup.run, h]

/-- What is not known is asked, and the shelf keeps the answer. -/
theorem Lookup.run_unknown (h : (l.shelf m).about? name = none)
    (hshelf : ∀ sent, l.shelf { m with sent := sent } = l.shelf m)
    {v : Except Failure Value × Memory} (hfetch : c.fetch (l.path name) m = v) :
    l.run c name m = (v.1.bind (l.read name),
      l.put ((l.shelf m).keep l.keepsMissing name (v.1.bind (l.read name)))
        { m with sent := v.2.sent }) := by
  have hmemory := c.fetch_memory (l.path name) m
  rw [hfetch] at hmemory
  rw [Lookup.run, h]
  simp only [hfetch]
  rw [hmemory, hshelf]

end Lookups

namespace Topic

variable {c : Connection} {m : Memory} {t : Topic}

/-- What is known about a topic is the answer, and nothing changes. -/
theorem look_known {known : Except Failure Reply} (h : t.about? m = some known) :
    t.look c m = (known, m) := by
  cases t with
  | app name =>
    obtain ⟨answer, hanswer, rfl⟩ := Option.map_eq_some_iff.mp h
    rw [look, Lookup.run_known (l := .app) hanswer]
  | job name =>
    obtain ⟨answer, hanswer, rfl⟩ := Option.map_eq_some_iff.mp h
    rw [look, Lookup.run_known (l := .job) hanswer]
  | pool name =>
    obtain ⟨answer, hanswer, rfl⟩ := Option.map_eq_some_iff.mp h
    rw [look, Lookup.run_known (l := .pool) hanswer]
  | clusters =>
    obtain ⟨cs, hcs, rfl⟩ := Option.map_eq_some_iff.mp h
    rw [look, Directory.clusters, hcs]
    rfl

/-- What looking a topic up has done, of which nothing was known: the directory was asked, and of
what is known only the topic may have changed, whose answer is kept if it settles the topic. -/
structure IsLooked (c : Connection) (t : Topic) (m : Memory) : Prop where
  answer : (t.look c m).1 = (c.fetch t.path m).1.bind t.read
  sent : (t.look c m).2.sent = (c.fetch t.path m).2.sent
  itself : t.about? (t.look c m).2 =
    if t.settles (t.look c m).1 = true then some (t.look c m).1 else none
  others : ∀ t' : Topic, t' ≠ t → t'.about? (t.look c m).2 = t'.about? m

theorem map_bind_eq {α β γ : Type} (x : Except Failure α) (f : α → Except Failure β) (g : β → γ) :
    (x.bind f).map g = x.bind fun a => (f a).map g := by
  cases x <;> rfl

/-- Looking a name up, in terms of topics: what is asked here of a look-up holds for all of them by
definition. -/
theorem isLooked_of_lookup {α : Type} {l : Lookup α} {name : String} {reply : α → Reply}
    (hshelf : ∀ sent, l.shelf { m with sent := sent } = l.shelf m)
    (hlook : t.look c m = ((l.run c name m).1.map reply, (l.run c name m).2))
    (hpath : t.path = l.path name) (hread : ∀ v, t.read v = (l.read name v).map reply)
    (hkeeps : t.keepsMissing = l.keepsMissing)
    (habout : ∀ m, t.about? m = ((l.shelf m).about? name).map (·.map reply))
    (hput : ∀ s m, l.shelf (l.put s m) = s) (hsent : ∀ s m, (l.put s m).sent = m.sent)
    (hothers : ∀ t' : Topic, t' ≠ t → ∀ answer sent,
      t'.about? (l.put ((l.shelf m).keep l.keepsMissing name answer) { m with sent := sent }) =
        t'.about? m)
    (h : t.about? m = none) : t.IsLooked c m := by
  have hnone : (l.shelf m).about? name = none := by
    rw [habout] at h
    exact Option.map_eq_none_iff.mp h
  have hrun := Lookup.run_unknown (c := c) hnone hshelf rfl
  rw [← hpath] at hrun
  generalize hv : c.fetch t.path m = v at hrun
  constructor
  · rw [hlook, hrun, hv, map_bind_eq]
    exact congrArg _ (funext fun v => (hread v).symm)
  · rw [hlook, hrun, hv, hsent]
  · rw [hlook, hrun, habout, hput, Shelf.about?_keep_self hnone, settles, hkeeps, isKept_map]
    split <;> rfl
  · intro t' ht'
    rw [hlook, hrun, hothers t' ht']

/-- **A topic of which nothing is known is asked**, and of what is known it alone may change. -/
theorem look_unknown (h : t.about? m = none) : t.IsLooked c m := by
  cases t with
  | app name =>
    refine isLooked_of_lookup (l := .app) (fun _ => rfl) rfl rfl (fun _ => rfl) rfl (fun _ => rfl)
      (fun _ _ => rfl) (fun _ _ => rfl) (fun t' ht' answer sent => ?_) h
    cases t' with
    | app other =>
      have hne : other ≠ name := fun heq => ht' (congrArg Topic.app heq)
      exact congrArg (Option.map (Except.map Reply.workload))
        (m.apps.about?_keep_of_ne hne _ answer)
    | _ => rfl
  | job name =>
    refine isLooked_of_lookup (l := .job) (fun _ => rfl) rfl rfl (fun _ => rfl) rfl (fun _ => rfl)
      (fun _ _ => rfl) (fun _ _ => rfl) (fun t' ht' answer sent => ?_) h
    cases t' with
    | job other =>
      have hne : other ≠ name := fun heq => ht' (congrArg Topic.job heq)
      exact congrArg (Option.map (Except.map Reply.workload))
        (m.jobs.about?_keep_of_ne hne _ answer)
    | _ => rfl
  | pool name =>
    refine isLooked_of_lookup (l := .pool) (fun _ => rfl) rfl rfl (fun _ => rfl) rfl (fun _ => rfl)
      (fun _ _ => rfl) (fun _ _ => rfl) (fun t' ht' answer sent => ?_) h
    cases t' with
    | pool other =>
      have hne : other ≠ name := fun heq => ht' (congrArg Topic.pool heq)
      exact congrArg (Option.map (Except.map Reply.pool)) (m.pools.about?_keep_of_ne hne _ answer)
    | _ => rfl
  | clusters =>
    have hnone : m.clusters = none := Option.map_eq_none_iff.mp h
    generalize hv : c.fetch Topic.clusters.path m = v
    have hmemory := c.fetch_memory Topic.clusters.path m
    rw [hv] at hmemory
    have hrun : Topic.clusters.look c m = ((v.1.bind readClusters).map .clusters,
        { m with clusters := (v.1.bind readClusters).toOption, sent := v.2.sent }) := by
      rw [look, Directory.clusters, hnone]
      simp only [show c.fetch clustersPath m = v from hv]
      rw [hmemory]
      cases v.1.bind readClusters with
      | ok cs => rfl
      | error f => simp only [Except.toOption, hnone]
    constructor
    · rw [hrun, hv, map_bind_eq]
      rfl
    · rw [hrun, hv]
    · rw [hrun]
      cases v.1.bind readClusters with
      | ok cs => rfl
      | error f => cases f <;> rfl
    · intro t' ht'
      rw [hrun]
      cases t' with
      | clusters => exact absurd rfl ht'
      | _ => rfl

/-- What came of asking about a topic: nothing was sent, because there is no such request, or one
request was sent and its answer decides. -/
theorem IsLooked.cases (h : t.IsLooked c m) :
    (∃ f, c.request t.path = .error f ∧ (t.look c m).1 = .error f ∧
      (t.look c m).2.sent = m.sent) ∨
    ∃ r, c.request t.path = .ok r ∧ (t.look c m).2.sent = m.sent ++ [r] ∧
      (t.look c m).1 = t.verdict c (c.server.handle m.sent r) := by
  rw [h.answer, h.sent]
  rcases c.fetch_cases t.path m with ⟨f, hrequest, heq⟩ | ⟨r, hrequest, heq⟩
  · exact .inl ⟨f, hrequest, by rw [heq]; rfl, by rw [heq]⟩
  · exact .inr ⟨r, hrequest, by rw [heq], by rw [heq]; rfl⟩

end Topic

/-! ## Answers that settle a topic -/

theorem saysUnknown_bind {α β : Type} (x : Except Failure α) {f : α → Except Failure β}
    (hf : ∀ a, saysUnknown (f a) = false) : saysUnknown (x.bind f) = saysUnknown x := by
  cases x with
  | ok a => exact hf a
  | error e => cases e <;> rfl

theorem saysUnknown_map {α β : Type} (x : Except Failure α) (f : α → β) :
    saysUnknown (x.map f) = saysUnknown x := by
  cases x with
  | ok a => rfl
  | error e => cases e <;> rfl

theorem saysUnknown_decode {α : Type} (schema : String) (read : Schema.Reader α)
    (endpoint : String) (v : Value) : saysUnknown (decode schema read endpoint v) = false := by
  rw [decode]
  split <;> rfl

theorem saysUnknown_mapM {α β : Type} {f : α → Except Failure β}
    (hf : ∀ a, saysUnknown (f a) = false) (l : List α) : saysUnknown (l.mapM f) = false := by
  induction l with
  | nil => rfl
  | cons a l ih =>
    rw [List.mapM_cons]
    refine (saysUnknown_bind (f a) fun b => ?_).trans (hf a)
    exact (saysUnknown_bind (l.mapM f) fun bs => rfl).trans ih

theorem saysUnknown_heard (c : Connection) (path : String) (answer : Answer) :
    saysUnknown (c.heard path answer) = true ↔ ∃ r, answer = .response r ∧ r.status = 404 := by
  cases answer with
  | failed reason => simp [Connection.heard, saysUnknown, Connection.noResponse, Fault.isNotFound,
      Fault.saying, Fault.make]
  | breakdown kind message => simp [Connection.heard, saysUnknown]
  | response r =>
    simp only [Connection.heard, document, Answer.response.injEq, exists_eq_left']
    cases hsuccess : r.isSuccess with
    | true =>
      have hstatus : r.status ≠ 404 := by
        rintro h
        simp [Response.isSuccess, h] at hsuccess
      simp only [Bool.not_true, Bool.false_eq_true, if_false, hstatus, iff_false]
      split <;> simp [saysUnknown, Fault.isNotFound, Fault.of, Fault.make]
    | false => simp [saysUnknown, Fault.isNotFound, Fault.of, Fault.make]

namespace Topic

/-- No document about a topic says that the topic is unknown. -/
theorem saysUnknown_read (t : Topic) (v : Value) : saysUnknown (t.read v) = false := by
  cases t with
  | app name =>
    rw [read, saysUnknown_map]
    refine (saysUnknown_bind _ fun w => ?_).trans (saysUnknown_decode ..)
    split <;> rfl
  | job name =>
    rw [read, saysUnknown_map, readJob]
    split
    · rfl
    · split
      · rfl
      · exact saysUnknown_decode ..
  | pool name =>
    rw [read, saysUnknown_map]
    refine (saysUnknown_bind _ fun p => ?_).trans (saysUnknown_decode ..)
    split <;> rfl
  | clusters =>
    rw [read, saysUnknown_map, readClusters]
    split
    · rfl
    · refine (saysUnknown_bind _ fun parts => ?_).trans ?_
      · exact saysUnknown_mapM (fun item => saysUnknown_decode ..) parts
      · rw [Value.parts]
        split <;> rfl

/-- **What a server has to say to settle a topic**: what is accepted, or of an app or a job
that it is not found. -/
theorem settles_verdict (c : Connection) (t : Topic) (answer : Answer) :
    t.settles (t.verdict c answer) = true ↔ (t.verdict c answer).isOk = true ∨
      (t.keepsMissing = true ∧ ∃ r, answer = .response r ∧ r.status = 404) := by
  rw [settles, isKept, Bool.or_eq_true, Bool.and_eq_true, ← saysUnknown_heard c t.path, verdict,
    saysUnknown_bind _ t.saysUnknown_read]

end Topic

end AccessRules.Directory
