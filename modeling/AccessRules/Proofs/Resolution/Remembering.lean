import AccessRules.Proofs.Directory.Remembering
import AccessRules.Proofs.Endpoint.Canonical
import AccessRules.Resolution.Cache

/-!
# What is remembered of resolutions

**Program** — `Cache.resolve` answers what an endpoint resolves to, out of the memo of the cache or
by resolving it.

**Spec** — the first call that succeeds for an endpoint decides what every later one returns, and
none of them resolves anything; until then every call resolves, and one that fails leaves the memo
as it was (`remembered_or_resolved`).  Together with what is remembered of the directory this is all
that is remembered (`remembered_or_asked`).

**Crux** — that a call resolves nothing is said by letting it resolve in any way whatever: what it
returns does not depend on it.  Calls may therefore differ in how they resolve (`Call.resolution`),
as they do when the directory changes between them.  After any calls the memo holds of an endpoint
exactly the first target it was resolved to (`lookup_visits`), because the canonical forms of
different endpoints differ.
-/

namespace AccessRules.Resolution

open Directory

/-- A way to resolve an endpoint. -/
abbrev Resolver := Memory → Endpoint → Except Failure (Option Target) × Memory

namespace Cache

/-- What an endpoint resolves to, asked of a resolver only if it is not yet known. -/
def resolveBy (resolution : Resolver) (e : Endpoint) (c : Cache) :
    Except Failure (Option Target) × Cache :=
  match c.memo.lookup e.canonical with
  | some target => (.ok target, c)
  | none =>
    match resolution c.memory e with
    | (.ok target, memory) => (.ok target, ⟨(e.canonical, target) :: c.memo, memory⟩)
    | (.error f, memory) => (.error f, { c with memory := memory })

/-- The cache resolves by asking the directory. -/
theorem resolve_eq_resolveBy (connection : Connection) (e : Endpoint) (c : Cache) :
    c.resolve connection e = c.resolveBy (Resolution.resolve connection) e := rfl

variable {resolution : Resolver} {e : Endpoint} {c : Cache}

theorem resolveBy_known {target : Option Target} (h : c.memo.lookup e.canonical = some target) :
    c.resolveBy resolution e = (.ok target, c) := by
  rw [resolveBy, h]

/-- **All that a call can do for an endpoint that is not known**: it fails and leaves the memo, or
adds the target of the endpoint. -/
theorem resolveBy_unknown (resolution : Resolver) (h : c.memo.lookup e.canonical = none) :
    (∃ f, (resolution c.memory e).1 = .error f ∧
      c.resolveBy resolution e = (.error f, ⟨c.memo, (resolution c.memory e).2⟩)) ∨
    ∃ target, (resolution c.memory e).1 = .ok target ∧ c.resolveBy resolution e =
      (.ok target, ⟨(e.canonical, target) :: c.memo, (resolution c.memory e).2⟩) := by
  rw [resolveBy, h]
  cases hresolution : resolution c.memory e with
  | mk answer memory =>
    cases answer with
    | error f => exact .inl ⟨f, rfl, rfl⟩
    | ok target => exact .inr ⟨target, rfl, rfl⟩

/-- **What is known of an endpoint after a call**: what was known, or else the target the call
returned for it. -/
theorem lookup_resolveBy (resolution : Resolver) (e e' : Endpoint) (c : Cache) :
    (c.resolveBy resolution e').2.memo.lookup e.canonical = (c.memo.lookup e.canonical).or
      (if e' = e then (c.resolveBy resolution e').1.toOption else none) := by
  cases hknown : c.memo.lookup e'.canonical with
  | some target =>
    rw [resolveBy_known hknown]
    split
    · next heq =>
      rw [← heq, hknown, Option.some_or]
    · rw [Option.or_none]
  | none =>
    rcases resolveBy_unknown resolution hknown with ⟨f, -, heq⟩ | ⟨target, -, heq⟩
    · rw [heq]
      split <;> exact (Option.or_none).symm
    · rw [heq]
      by_cases hsame : e' = e
      · obtain rfl := hsame
        simp [hknown, Except.toOption]
      · have hne : (e.canonical == e'.canonical) = false :=
          beq_false_of_ne fun h => hsame (Endpoint.canonical_injective h).symm
        rw [if_neg hsame, Option.or_none]
        simp only [List.lookup_cons, hne]

/-! ## Calls -/

/-- A call: how it resolves, and what. -/
structure Call where
  resolution : Resolver
  endpoint : Endpoint

/-- A call and the cache it met. -/
structure Visit where
  cache : Cache
  call : Call

namespace Visit

/-- What came of a visit. -/
def outcome (v : Visit) : Except Failure (Option Target) × Cache :=
  v.cache.resolveBy v.call.resolution v.call.endpoint

/-- The target a visit returned for an endpoint. -/
def target? (e : Endpoint) (v : Visit) : Option (Option Target) :=
  if v.call.endpoint = e then v.outcome.1.toOption else none

end Visit

/-- The visits of some calls, the first one to the cache at hand. -/
def visits (c : Cache) : List Call → List Visit
  | [] => []
  | call :: calls => ⟨c, call⟩ :: visits (Visit.outcome ⟨c, call⟩).2 calls

/-- What a visit met holds of an endpoint the first target that was returned for it before. -/
theorem lookup_visits {c : Cache} {calls : List Call} {earlier later : List Visit} {v : Visit}
    (h : c.visits calls = earlier ++ v :: later) (e : Endpoint) :
    v.cache.memo.lookup e.canonical =
      (c.memo.lookup e.canonical).or (earlier.findSome? (Visit.target? e)) := by
  induction calls generalizing c earlier with
  | nil =>
    have hlength := congrArg List.length h
    simp [visits] at hlength
  | cons call calls ih =>
    rw [visits] at h
    cases earlier with
    | nil =>
      obtain ⟨rfl, -⟩ := List.cons.inj h
      exact (Option.or_none).symm
    | cons u earlier =>
      obtain ⟨rfl, hrest⟩ := List.cons.inj h
      have hfirst : List.findSome? (Visit.target? e) (⟨c, call⟩ :: earlier) =
          (Visit.target? e ⟨c, call⟩).or (earlier.findSome? (Visit.target? e)) := by
        rw [List.findSome?_cons]
        cases Visit.target? e ⟨c, call⟩ <;> rfl
      rw [ih hrest, hfirst, Visit.outcome, lookup_resolveBy, Option.or_assoc]
      rfl

/-- **What was resolved is never resolved again, and everything else is.**  After a call that
succeeded, a call for the same endpoint returns the same and changes nothing, however it would have
resolved; before that every call resolves, and one that fails leaves the memo. -/
theorem remembered_or_resolved {calls : List Call} {earlier later : List Visit} {v : Visit}
    (h : Cache.empty.visits calls = earlier ++ v :: later) :
    (∀ target, earlier.findSome? (Visit.target? v.call.endpoint) = some target →
      ∀ resolution, v.cache.resolveBy resolution v.call.endpoint = (.ok target, v.cache)) ∧
    (earlier.findSome? (Visit.target? v.call.endpoint) = none →
      v.outcome.1 = (v.call.resolution v.cache.memory v.call.endpoint).1) ∧
    (∀ f, v.outcome.1 = .error f → v.outcome.2.memo = v.cache.memo) := by
  have hlookup := lookup_visits h v.call.endpoint
  rw [show Cache.empty.memo.lookup v.call.endpoint.canonical = none from rfl, Option.none_or]
    at hlookup
  rw [← hlookup]
  refine ⟨fun target htarget resolution => resolveBy_known htarget, fun hnone => ?_, fun f hf => ?_⟩
  · rcases resolveBy_unknown v.call.resolution hnone with
      ⟨f, hresolution, heq⟩ | ⟨target, hresolution, heq⟩
    all_goals rw [Visit.outcome, heq, hresolution]
  · rw [Visit.outcome] at hf ⊢
    cases hknown : v.cache.memo.lookup v.call.endpoint.canonical with
    | some target =>
      rw [resolveBy_known hknown]
    | none =>
      rcases resolveBy_unknown v.call.resolution hknown with
        ⟨f', -, heq⟩ | ⟨target, -, heq⟩
      · rw [heq]
      · rw [heq] at hf
        cases hf

end Cache

/-- **What is remembered is never asked again, and nothing else is remembered.**  Whatever is asked
of the directory, in any order and with a server that may answer differently each time: an inquiry
about a topic returns the first answer that settled the topic and sends nothing, or else it sends a
request whose answer decides.  An app or a job is settled by an answer that is accepted or says that
it is not found; a pool and the list of clusters only by one that is accepted.  Whatever is resolved
over one cache, in any order and by any resolvers: a call for an endpoint that was resolved returns
the target as it was and resolves nothing, and a call that fails leaves the memo as it was. -/
theorem remembered_or_asked :
    (∀ (c : Connection) (qs : List Inquiry) (earlier later : List Directory.Visit)
        (v : Directory.Visit),
      Directory.visits c .empty qs = earlier ++ v :: later →
      (v.inquiry.topic? = none → ∃ f, v.outcome c = (.error f, v.memory)) ∧
      ∀ t, v.inquiry.topic? = some t →
        (∀ known, earlier.findSome? (Directory.Visit.settled? c t) = some known →
          v.outcome c = (known.bind v.inquiry.pick, v.memory)) ∧
        (earlier.findSome? (Directory.Visit.settled? c t) = none → v.Asks c t)) ∧
    (∀ (connection : Connection) (e : Endpoint) (c : Cache),
      c.resolve connection e = c.resolveBy (Resolution.resolve connection) e) ∧
    (∀ (calls : List Cache.Call) (earlier later : List Cache.Visit) (v : Cache.Visit),
      Cache.empty.visits calls = earlier ++ v :: later →
      (∀ target, earlier.findSome? (Cache.Visit.target? v.call.endpoint) = some target →
        ∀ resolution, v.cache.resolveBy resolution v.call.endpoint = (.ok target, v.cache)) ∧
      (earlier.findSome? (Cache.Visit.target? v.call.endpoint) = none →
        v.outcome.1 = (v.call.resolution v.cache.memory v.call.endpoint).1) ∧
      (∀ f, v.outcome.1 = .error f → v.outcome.2.memo = v.cache.memo)) := by
  refine ⟨fun c qs earlier later v h => ⟨fun htopic => ?_, fun t ht => answered_or_asked c h ht⟩,
    Cache.resolve_eq_resolveBy, fun calls earlier later v h => Cache.remembered_or_resolved h⟩
  obtain ⟨p, -, hmake⟩ := Inquiry.make_of_no_topic (c := c) (m := v.memory) htopic
  exact ⟨_, hmake⟩

/-- A server that fails once before it tells of an app. -/
def flaky : Connection :=
  ⟨"http://directory", "", Http.Server.ofRoutes [("/apps/shop", [.response (.ofText 500 [] ""),
    .response (.ofText 200 [] "\x7b\"name\":\"shop\",\"pool\":\"web\"\x7d")])]⟩

/-- An inquiry about the app. -/
def shop : Inquiry := .about (.app "shop")

/-- Of three inquiries about the app two are sent, and the last one is answered without. -/
theorem remembered_or_asked_flaky : ∃ earlier third,
    Directory.visits flaky .empty [shop, shop, shop] = earlier ++ [third] ∧
    third.memory.sent.length = 2 ∧ (third.outcome flaky).2 = third.memory ∧
    (third.outcome flaky).1.isOk = true := by
  -- stated for any server, so that it is seen without asking this one
  have hlast : ∀ c q q' q'', Directory.visits c .empty [q, q', q''] =
      Directory.visits c .empty [q, q'] ++ [⟨afterAll c .empty [q, q'], q''⟩] :=
    fun _ _ _ _ => rfl
  have hvisits := hlast flaky shop shop shop
  have hsettled : ((Directory.visits flaky .empty [shop, shop]).findSome?
      (Directory.Visit.settled? flaky (.app "shop"))).any (·.isOk) = true := by decide +kernel
  obtain ⟨known, hknown, hok⟩ := (Option.any_eq_true ..).mp hsettled
  have hsent : (afterAll flaky .empty [shop, shop]).sent.length = 2 := by decide +kernel
  have hboth := remembered_or_asked.1 flaky _ _ _ _ hvisits
  have houtcome := (hboth.2 (.app "shop") rfl).1 known hknown
  refine ⟨_, _, hvisits, hsent, ?_, ?_⟩
  · rw [houtcome]
  · rw [houtcome]
    cases known with
    | ok reply => rfl
    | error f => exact hok

end AccessRules.Resolution
