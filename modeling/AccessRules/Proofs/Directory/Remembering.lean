import Mathlib.Data.List.Induction
import AccessRules.Proofs.Directory.Asking

/-!
# What is remembered of the directory

**Program** — look-ups of apps, jobs and pools, the list of clusters, and the clusters picked from
it, asked in any order over one memory; the server may answer the same request differently each
time.

**Spec** — the first answer that settles a topic is the answer to it for ever, and no request is
sent for it again; until there is one, every inquiry about the topic sends a request, and what the
server says to that request decides (`answered_or_asked`).

**Crux** — after any inquiries the memory knows of a topic exactly the first answer that settled it
(`about?_visits`), where *settled* is a fact about what the server said, not about the memory
(`Visit.settled?`): before a topic is settled each inquiry about it is really sent, so the first
answer that would settle it is one that was given.
-/

namespace AccessRules.Directory

open Http

/-! ## Inquiries -/

/-- Something asked of the directory: a topic, or the cluster of a name or of a pool. -/
inductive Inquiry where
  | about (t : Topic)
  | cluster (name : String)
  | poolCluster (p : Pool)
  deriving Repr

namespace Inquiry

/-- The topic that decides an inquiry; there is none for a pool that is not served. -/
def topic? : Inquiry → Option Topic
  | .about t => some t
  | .cluster _ => some .clusters
  | .poolCluster p => if p.isServed then some .clusters else none

/-- A cluster that was found, or the failure to find one. -/
def found (pool name : String) : Option Cluster → Except Failure Reply
  | some c => .ok (.cluster c)
  | none => .error (.fault (.of (.clusterNotFound name pool)))

/-- What an inquiry picks from a reply to its topic. -/
def pick : Inquiry → Reply → Except Failure Reply
  | .cluster name, .clusters cs => found "" name (named? name cs)
  | .poolCluster p, .clusters cs => found p.name p.name (owner? p.name cs)
  | _, r => .ok r

/-- Makes an inquiry. -/
def make (c : Connection) (m : Memory) : Inquiry → Except Failure Reply × Memory
  | .about t => t.look c m
  | .cluster name => ((Directory.cluster c name m).1.map .cluster, (Directory.cluster c name m).2)
  | .poolCluster p =>
    ((Directory.poolCluster c p m).1.map .cluster, (Directory.poolCluster c p m).2)

variable {c : Connection} {m : Memory} {q : Inquiry}

/-- An inquiry picks from what its topic is answered. -/
theorem make_of_topic {t : Topic} (h : q.topic? = some t) :
    q.make c m = ((t.look c m).1.bind q.pick, (t.look c m).2) := by
  cases q with
  | about t' =>
    obtain rfl := Option.some.inj h
    rw [make]
    cases hlook : t'.look c m with
    | mk answer m' => cases answer <;> rfl
  | cluster name =>
    obtain rfl := Option.some.inj h
    rw [make, Directory.cluster, Topic.look]
    cases hclusters : Directory.clusters c m with
    | mk answer m' =>
      cases answer with
      | error f => rfl
      | ok cs =>
        simp only [Except.map, Except.bind, pick]
        cases named? name cs <;> rfl
  | poolCluster p =>
    rw [topic?] at h
    split at h
    · next hserved =>
      obtain rfl := Option.some.inj h
      rw [make, Directory.poolCluster, hserved, Topic.look]
      cases hclusters : Directory.clusters c m with
      | mk answer m' =>
        cases answer with
        | error f => rfl
        | ok cs =>
          simp only [Bool.not_true, Bool.false_eq_true, if_false, Except.map, Except.bind, pick]
          cases owner? p.name cs <;> rfl
    · cases h

/-- An inquiry without a topic fails and does nothing. -/
theorem make_of_no_topic (h : q.topic? = none) :
    ∃ p, q = .poolCluster p ∧
      q.make c m = (.error (.fault (.of (.notKubernetesPool p.name p.name))), m) := by
  cases q with
  | poolCluster p =>
    rw [topic?] at h
    split at h
    · cases h
    · next hserved =>
      refine ⟨p, rfl, ?_⟩
      rw [make, Directory.poolCluster, Bool.eq_false_iff.mpr hserved]
      rfl
  | _ => cases h

end Inquiry

/-! ## Visits -/

/-- An inquiry and the memory it met. -/
structure Visit where
  memory : Memory
  inquiry : Inquiry
  deriving Repr

/-- The visits of some inquiries, the first one to the memory at hand. -/
def visits (c : Connection) (m : Memory) : List Inquiry → List Visit
  | [] => []
  | q :: qs => ⟨m, q⟩ :: visits c (q.make c m).2 qs

/-- The memory after some inquiries. -/
def afterAll (c : Connection) (m : Memory) (qs : List Inquiry) : Memory :=
  qs.foldl (fun m q => (q.make c m).2) m

/-- Whether what a server says settles a topic: it is accepted, or it is that an app or a job is not
found. -/
def Topic.isSettledBy (c : Connection) (t : Topic) (answer : Answer) : Bool :=
  (t.verdict c answer).isOk || (t.keepsMissing && match answer with
    | .response r => r.status == 404
    | _ => false)

namespace Visit

/-- What came of a visit. -/
def outcome (c : Connection) (v : Visit) : Except Failure Reply × Memory :=
  v.inquiry.make c v.memory

/-- The answer by which a visit settles a topic: what the server says to the request for it, after
the requests sent before. -/
def settled? (c : Connection) (t : Topic) (v : Visit) : Option (Except Failure Reply) :=
  if v.inquiry.topic? = some t then
    match c.request t.path with
    | .error _ => none
    | .ok r =>
      let answer := c.server.handle v.memory.sent r
      if t.isSettledBy c answer then some (t.verdict c answer) else none
  else none

end Visit

/-! ## Runs and visits -/

section Runs

variable {c : Connection} {m : Memory}

theorem afterAll_append (a b : List Inquiry) :
    afterAll c m (a ++ b) = afterAll c (afterAll c m a) b := by
  rw [afterAll, List.foldl_append]
  rfl

theorem visits_append (a b : List Inquiry) :
    visits c m (a ++ b) = visits c m a ++ visits c (afterAll c m a) b := by
  induction a generalizing m with
  | nil => rfl
  | cons q a ih =>
    rw [List.cons_append, visits, ih, visits]
    rfl

/-- What an inquiry met is what the inquiries before it left. -/
theorem visits_split {qs : List Inquiry} {earlier later : List Visit} {v : Visit}
    (h : visits c m qs = earlier ++ v :: later) :
    ∃ before, earlier = visits c m before ∧ v.memory = afterAll c m before := by
  induction qs generalizing m earlier with
  | nil =>
    have hlength := congrArg List.length h
    simp [visits] at hlength
  | cons q qs ih =>
    rw [visits] at h
    cases earlier with
    | nil =>
      obtain ⟨rfl, -⟩ := List.cons.inj h
      exact ⟨[], rfl, rfl⟩
    | cons u earlier =>
      obtain ⟨rfl, hrest⟩ := List.cons.inj h
      obtain ⟨before, rfl, hmemory⟩ := ih hrest
      exact ⟨q :: before, rfl, hmemory⟩

end Runs

/-! ## What is known after some inquiries -/

theorem Topic.isSettledBy_eq (c : Connection) (t : Topic) (answer : Answer) :
    t.isSettledBy c answer = t.settles (t.verdict c answer) := by
  rw [Bool.eq_iff_iff, settles_verdict]
  unfold isSettledBy
  cases answer <;> simp

/-- That there is no request does not say that a name is unknown. -/
theorem saysUnknown_request (c : Connection) (path : String) :
    saysUnknown (c.request path) = false := by
  rw [Connection.request_eq]
  repeat' split
  all_goals rfl

namespace Topic

variable {c : Connection} {m : Memory} {t : Topic}

/-- What is known about a topic after it was asked. -/
theorem IsLooked.about_itself (h : t.IsLooked c m) {q : Inquiry} (hq : q.topic? = some t) :
    t.about? (t.look c m).2 = Visit.settled? c t ⟨m, q⟩ := by
  rw [h.itself, Visit.settled?, if_pos hq]
  rcases h.cases with ⟨f, hrequest, hlook, -⟩ | ⟨r, hrequest, -, hlook⟩
  · have hsettles : t.settles (.error f) = false := by
      have hunknown := saysUnknown_request c t.path
      rw [hrequest] at hunknown
      have hreply : saysUnknown (.error f : Except Failure Reply) = false := by
        cases f <;> exact hunknown
      rw [settles, isKept, hreply, Bool.and_false]
      rfl
    simp only [hrequest, hlook, hsettles]
    rfl
  · simp only [hrequest, hlook, isSettledBy_eq]

/-- **What is known of a topic after an inquiry**: what was known, or else the answer by which the
inquiry settled it. -/
theorem about?_make (t : Topic) (q : Inquiry) :
    t.about? (q.make c m).2 = (t.about? m).or (Visit.settled? c t ⟨m, q⟩) := by
  have hother : q.topic? ≠ some t → Visit.settled? c t ⟨m, q⟩ = none := fun h => if_neg h
  cases htopic : q.topic? with
  | none =>
    obtain ⟨p, rfl, hmake⟩ := Inquiry.make_of_no_topic (c := c) (m := m) htopic
    rw [hmake, hother (by rw [htopic]; rintro ⟨⟩), Option.or_none]
  | some t' =>
    rw [Inquiry.make_of_topic htopic]
    by_cases heq : t = t'
    · obtain rfl := heq
      cases hknown : t.about? m with
      | some known => rw [look_known hknown, hknown, Option.some_or]
      | none => rw [(look_unknown hknown).about_itself htopic, Option.none_or]
    · rw [hother (by rw [htopic]; exact fun h => heq (Option.some.inj h).symm), Option.or_none]
      cases hknown : t'.about? m with
      | some known => rw [look_known hknown]
      | none => exact (look_unknown hknown).others t heq

end Topic

theorem about?_empty (t : Topic) : t.about? .empty = none := by
  cases t <;> rfl

/-- **After any inquiries the first answer that settled a topic is known**, and nothing else. -/
theorem about?_visits (c : Connection) (t : Topic) (qs : List Inquiry) :
    t.about? (afterAll c .empty qs) = (visits c .empty qs).findSome? (Visit.settled? c t) := by
  induction qs using List.reverseRecOn with
  | nil => exact about?_empty t
  | append_singleton qs q ih =>
    rw [afterAll_append, visits_append, List.findSome?_append, ← ih]
    refine (t.about?_make q).trans ?_
    simp [visits]

/-- A visit that asks about a topic: without a request for it nothing happens, and otherwise one
request is sent and what the server says to it decides. -/
inductive Visit.Asks (c : Connection) (t : Topic) (v : Visit) : Prop
  | unsent (f : Failure) (hrequest : c.request t.path = .error f)
      (hreply : (v.outcome c).1 = .error f) (hsent : (v.outcome c).2.sent = v.memory.sent)
  | sent (r : Request) (hrequest : c.request t.path = .ok r)
      (hreply : (v.outcome c).1 =
        (t.verdict c (c.server.handle v.memory.sent r)).bind v.inquiry.pick)
      (hsent : (v.outcome c).2.sent = v.memory.sent ++ [r])

/-- **What is settled is never asked again, and everything else is asked.**  An inquiry about a
topic gets the first answer that settled the topic, if one did, and sends nothing; otherwise the
directory is asked, and what it says now decides. -/
theorem answered_or_asked (c : Connection) {qs : List Inquiry} {earlier later : List Visit}
    {v : Visit} (h : visits c .empty qs = earlier ++ v :: later) {t : Topic}
    (ht : v.inquiry.topic? = some t) :
    (∀ known, earlier.findSome? (Visit.settled? c t) = some known →
      v.outcome c = (known.bind v.inquiry.pick, v.memory)) ∧
    (earlier.findSome? (Visit.settled? c t) = none → v.Asks c t) := by
  obtain ⟨before, rfl, hmemory⟩ := visits_split h
  have houtcome : v.outcome c = _ := Inquiry.make_of_topic ht
  rw [← about?_visits, ← hmemory]
  refine ⟨fun known hknown => ?_, fun hnone => ?_⟩
  · rw [houtcome, Topic.look_known hknown]
  · rcases (Topic.look_unknown hnone).cases with
      ⟨f, hrequest, hlook, hsent⟩ | ⟨r, hrequest, hsent, hlook⟩
    · refine .unsent f hrequest ?_ ?_
      · rw [houtcome, hlook]
        rfl
      · rw [houtcome, hsent]
    · refine .sent r hrequest ?_ ?_
      · rw [houtcome, hlook]
      · rw [houtcome, hsent]

end AccessRules.Directory
