import AccessRules.Proofs.Directory.Lasting
import AccessRules.Proofs.Endpoint.Separation
import AccessRules.Proofs.Resolution.Composing
import AccessRules.Proofs.Resolution.Failing

/-!
# What accepted endpoints resolve to

**Program** — `Endpoint.isValid` accepts an endpoint, and `Cache.resolve` resolves it over a cache
and its memory of the directory, whatever the directory answers.

**Spec** — an accepted endpoint is of exactly one kind that is still in use.  It is never blamed for
naming nothing or for its pool; if it is neither an app nor a job it resolves to nothing, and
nothing is asked; and an app or a job whose pool is found resolves to nothing exactly if kubernetes
does not provision that pool (`accepted_resolves`).

**Crux** — the checks that resolving makes for itself are those that validity has made: a valid app
or job names something (`namesSomething_of_isValid`), and clusters are only looked for where the
pool is served.  It makes no difference whether the endpoint was resolved before: what a cache
remembers is what resolving over its memory would come to once more, without asking
(`Cache.IsBacked`), because all that it rests on lasts.
-/

namespace AccessRules.Resolution

open Directory

variable {c : Connection}

/-! ## Pools -/

namespace Question

/-- A pool that is served comes to a target, or to a failure. -/
theorem settle_eq_none_iff (c : Connection) (m : Memory) (p : Pool) :
    (settle c m p).1 = .ok none ↔ p.provisioner ≠ kubernetes := by
  rw [settle, Pool.isServed]
  by_cases hserved : p.provisioner = kubernetes
  · simp only [hserved, beq_self_eq_true, if_true, ne_eq, not_true, iff_false]
    intro h
    obtain ⟨t, -, ht⟩ := ok_of_map h
    cases ht
  · simp [hserved]

/-- A pool that has a target is served, and comes to that. -/
theorem settle_eq_some {m : Memory} {p : Pool} {t : Target} (ht : (targetOf c m p).1 = .ok t) :
    (settle c m p).1 = .ok (some t) := by
  cases hserved : p.isServed with
  | true => simp [settle, hserved, ht, Except.map]
  | false => simp [targetOf, poolCluster, hserved, Except.bind] at ht

end Question

/-! ## Failures -/

namespace Question

/-- A question about an app that has a name or a pool, or about a job that has a name. -/
def NamesSomething : Question → Prop
  | .app a => a.name ≠ "" ∨ a.pool ≠ ""
  | .job j => j.name ≠ ""

variable {m : Memory}

/-- Whoever names something is not blamed for naming nothing. -/
theorem spares_pool {q : Question} (hq : q.NamesSomething) (h : m.SparesEndpoints) :
    Spares (q.pool c m).1 := by
  cases q with
  | app a =>
    have hlook : Spares (Lookup.app.run c a.name m).1 := (Topic.spares_look h (.app a.name)).of_map
    simp only [pool]
    by_cases hname : a.name = ""
    · have hpool : a.pool ≠ "" := hq.resolve_left (not_not_intro hname)
      simp [hname, hpool, spares_ok]
    · simpa [hname] using hlook.map (·.pool)
  | job j =>
    have hlook : Spares (Lookup.job.run c j.name m).1 := (Topic.spares_look h (.job j.name)).of_map
    have hname : j.name ≠ "" := hq
    simp only [pool]
    simpa [hname] using hlook.map (·.pool)

theorem spares_home {q : Question} (hq : q.NamesSomething) (h : m.SparesEndpoints) :
    Spares (q.home c m).1 := by
  have hpool := spares_pool (c := c) hq h
  have hsound := ((isComposed_pool c q).isLasting.leads m).sparesEndpoints h
  rw [home]
  cases hm : q.pool c m with
  | mk x n =>
    rw [hm] at hpool hsound
    cases x with
    | error f => exact spares_error (hpool f rfl)
    | ok name => exact (Topic.spares_look hsound (.pool name)).of_map

/-- A pool that is served is not blamed for not being served. -/
theorem spares_poolCluster {p : Pool} (hserved : p.isServed = true) (h : m.SparesEndpoints) :
    Spares (poolCluster c p m).1 := by
  have hclusters : Spares (clusters c m).1 := (Topic.spares_look h .clusters).of_map
  simp only [poolCluster, hserved, Bool.not_true, Bool.false_eq_true, if_false]
  refine hclusters.bind fun cs _ => ?_
  split
  · exact spares_ok _
  · exact spares_error rfl

theorem spares_accessTo (cluster : Cluster) : Spares (accessTo cluster) := by
  refine Spares.bind ?_ fun access _ => spares_ok _
  rw [sections]
  split
  · exact spares_ok _
  · exact spares_error rfl
  · exact spares_ok _

theorem spares_targetOf {p : Pool} (hserved : p.isServed = true) (h : m.SparesEndpoints) :
    Spares (targetOf c m p).1 := by
  have htarget : (targetOf c m p).1 = (poolCluster c p m).1.bind fun cluster =>
      (accessTo cluster).map fun access => ⟨cluster.name, access, p.name⟩ := rfl
  rw [htarget]
  exact (spares_poolCluster hserved h).bind fun cluster _ => (spares_accessTo cluster).map _

theorem spares_settle (h : m.SparesEndpoints) (p : Pool) : Spares (settle c m p).1 := by
  rw [settle]
  split
  · next hserved => exact (spares_targetOf hserved h).map some
  · exact spares_ok none

theorem spares_answer {q : Question} (hq : q.NamesSomething) (h : m.SparesEndpoints) :
    Spares (q.answer c m).1 := by
  have hhome := spares_home (c := c) hq h
  have hsound := ((isComposed_home c q).isLasting.leads m).sparesEndpoints h
  rw [answer_eq]
  cases hm : q.home c m with
  | mk x n =>
    rw [hm] at hhome hsound
    cases x with
    | error f => exact spares_error (hhome f rfl)
    | ok p => exact spares_settle hsound p

end Question

/-- **A valid app or job names something.** -/
theorem namesSomething_of_isValid {e : Endpoint} (he : e.isValid = true) {q : Question}
    (hq : Question.of? e = some q) : q.NamesSomething := by
  obtain ⟨happ, hjob, -⟩ := Endpoint.isValid_iff.mp he
  cases Endpoint.isTarget_of_isValid he with
  | app a =>
    obtain rfl := Option.some.inj hq
    have happ := Endpoint.App.flaw?_eq_none.mp (Endpoint.flaw?_of_bind happ rfl)
    rcases happ with ⟨-, hpool⟩ | ⟨hname, -⟩
    · exact .inr hpool
    · exact .inl fun hempty => by simp [hempty] at hname
  | job j =>
    obtain rfl := Option.some.inj hq
    have hname := Endpoint.Job.flaw?_eq_none.mp (Endpoint.flaw?_of_bind hjob rfl)
    exact fun hempty => by simp [hempty] at hname
  | _ => cases hq

/-! ## Caches -/

namespace Cache

/-- A cache over a directory: endpoints are resolved over it, and its directory may be asked for
anything else in between. -/
inductive IsReached (c : Connection) : Cache → Prop where
  | empty : IsReached c .empty
  | resolve {cache : Cache} (h : IsReached c cache) (e : Endpoint) :
    IsReached c (cache.resolve c e).2
  | inquire {cache : Cache} (h : IsReached c cache) (q : Inquiry) :
    IsReached c { cache with memory := (q.make c cache.memory).2 }

/-- What a cache remembers of an endpoint is what resolving it comes to over the memory of the
cache, where nothing has to be asked for it. -/
structure IsBacked (c : Connection) (cache : Cache) : Prop where
  memory : Memory.empty.Leads c cache.memory
  memo : ∀ (e : Endpoint) (target : Option Target), cache.memo.lookup e.canonical = some target →
    Resolution.resolve c cache.memory e = (.ok target, cache.memory)

variable {cache : Cache}

/-- **It makes no difference whether an endpoint was resolved before.** -/
theorem IsBacked.resolve_eq (h : cache.IsBacked c) (e : Endpoint) :
    (cache.resolve c e).1 = (Resolution.resolve c cache.memory e).1 ∧
      (cache.resolve c e).2.memory = (Resolution.resolve c cache.memory e).2 := by
  rw [resolve_eq_resolveBy]
  cases hknown : cache.memo.lookup e.canonical with
  | some target =>
    rw [resolveBy_known hknown, h.memo e target hknown]
    exact ⟨rfl, rfl⟩
  | none =>
    rcases resolveBy_unknown (Resolution.resolve c) hknown with ⟨f, hf, heq⟩ | ⟨target, ht, heq⟩
    · rw [heq, hf]
      exact ⟨rfl, rfl⟩
    · rw [heq, ht]
      exact ⟨rfl, rfl⟩

/-- What is remembered is still backed over a later memory. -/
theorem IsBacked.memo_of_leads (h : cache.IsBacked c) {m : Memory} (hm : cache.memory.Leads c m)
    (e : Endpoint) (target : Option Target)
    (hknown : cache.memo.lookup e.canonical = some target) :
    Resolution.resolve c m e = (.ok target, m) :=
  (isComposed_resolve c e).isLasting.lasts (h.memo e target hknown) hm

theorem IsBacked.resolve (h : cache.IsBacked c) (e : Endpoint) :
    (cache.resolve c e).2.IsBacked c := by
  obtain ⟨hresult, hmemory⟩ := h.resolve_eq e
  have hleads := (isComposed_resolve c e).isLasting.leads cache.memory
  rw [← hmemory] at hleads
  refine ⟨h.memory.trans hleads, fun e' target htarget => ?_⟩
  rw [resolve_eq_resolveBy, lookup_resolveBy, ← resolve_eq_resolveBy, Option.or_eq_some_iff]
    at htarget
  rcases htarget with hknown | ⟨-, hnew⟩
  · exact h.memo_of_leads hleads e' target hknown
  · split at hnew
    · next heq =>
      -- the endpoint that was just resolved
      obtain rfl := heq
      rw [hresult] at hnew
      have hagain : Resolution.resolve c cache.memory e =
          (.ok target, (cache.resolve c e).2.memory) :=
        Prod.ext (ok_of_toOption hnew) hmemory.symm
      exact (isComposed_resolve c e).isLasting.lasts hagain .refl
    · cases hnew

theorem IsReached.isBacked (h : IsReached c cache) : cache.IsBacked c := by
  induction h with
  | empty => exact ⟨.refl, fun _ _ hknown => by cases hknown⟩
  | resolve _ e ih => exact ih.resolve e
  | @inquire cache _ q ih =>
    have hleads := Memory.Leads.make c cache.memory q
    exact ⟨ih.memory.trans hleads, ih.memo_of_leads hleads⟩

end Cache

/-- **A valid endpoint is of one kind**, which is not the one out of use. -/
theorem exists_kind_of_isValid {e : Endpoint} (he : e.isValid = true) :
    ∃ k, k ≠ .service ∧ ∀ k', e.has k' = true ↔ k' = k := by
  cases Endpoint.isTarget_of_isValid he with
  | app a => exact ⟨.app, by decide, fun k' => by cases k' <;> simp [Endpoint.has, Endpoint.empty]⟩
  | job j => exact ⟨.job, by decide, fun k' => by cases k' <;> simp [Endpoint.has, Endpoint.empty]⟩
  | dns d => exact ⟨.dns, by decide, fun k' => by cases k' <;> simp [Endpoint.has, Endpoint.empty]⟩
  | ip i => exact ⟨.ip, by decide, fun k' => by cases k' <;> simp [Endpoint.has, Endpoint.empty]⟩
  | rpaas r =>
    exact ⟨.rpaas, by decide, fun k' => by cases k' <;> simp [Endpoint.has, Endpoint.empty]⟩

/-- **Apps and jobs raise a question**, and no other valid endpoint does. -/
theorem isSome_of?_of_isValid {e : Endpoint} (he : e.isValid = true) :
    (Question.of? e).isSome = true ↔ e.has .app = true ∨ e.has .job = true := by
  cases Endpoint.isTarget_of_isValid he with
  | app a => exact iff_of_true rfl (.inl rfl)
  | job j => exact iff_of_true rfl (.inr rfl)
  | _ => simp [Question.of?, Endpoint.kind?, Endpoint.Kind.all, Endpoint.has, Endpoint.empty]

/-- **Accepted endpoints resolve without failures that blame them.**  An endpoint that is accepted
is of exactly one kind, which is not the one out of use.  Over every cache, whatever is or was
answered by the directory: resolving the endpoint fails neither because it names nothing nor because
of its pool; if it is no app and no job it resolves to nothing, and no request is sent.  If it is
one it fails where looking its pool up fails; and if the pool is found it resolves to nothing
exactly if kubernetes does not provision the pool, and otherwise to its target, if the cluster is
found. -/
theorem accepted_resolves {e : Endpoint} (he : e.isValid = true) :
    (∃ k, k ≠ .service ∧ ∀ k', e.has k' = true ↔ k' = k) ∧
    ∀ (c : Connection) (cache : Cache), Cache.IsReached c cache →
      (∀ f, (cache.resolve c e).1 = .error f → f.blamesEndpoint = false) ∧
      (e.has .app = false → e.has .job = false → (cache.resolve c e).1 = .ok none ∧
        (cache.resolve c e).2.memory.sent = cache.memory.sent) ∧
      (e.has .app = true ∨ e.has .job = true → ∃ q, Question.of? e = some q ∧
        (∀ f, (q.home c cache.memory).1 = .error f → (cache.resolve c e).1 = .error f) ∧
        ∀ p, (q.home c cache.memory).1 = .ok p →
          ((cache.resolve c e).1 = .ok none ↔ p.provisioner ≠ kubernetes) ∧
          ∀ t, (Question.targetOf c (q.home c cache.memory).2 p).1 = .ok t →
            (cache.resolve c e).1 = .ok (some t)) := by
  refine ⟨exists_kind_of_isValid he, fun c cache hcache => ?_⟩
  have hbacked := hcache.isBacked
  have hsound := hbacked.memory.sparesEndpoints Memory.sparesEndpoints_empty
  obtain ⟨hresult, hmemory⟩ := hbacked.resolve_eq e
  have hasks := isSome_of?_of_isValid he
  rw [hresult, hmemory, Resolution.resolve]
  cases hq : Question.of? e with
  | none =>
    rw [hq] at hasks
    refine ⟨spares_ok none, fun _ _ => ⟨rfl, rfl⟩, fun hkind => ?_⟩
    cases hasks.mpr hkind
  | some q =>
    have hkind := hasks.mp (by rw [hq]; rfl)
    refine ⟨Question.spares_answer (namesSomething_of_isValid he hq) hsound, fun happ hjob => ?_,
      fun _ => ⟨q, rfl, fun f hf => ?_, fun p hp => ?_⟩⟩
    · rw [happ, hjob] at hkind
      rcases hkind with hkind | hkind <;> cases hkind
    all_goals
      simp only [Question.answer_eq]
      generalize q.home c cache.memory = found at *
      obtain ⟨x, n⟩ := found
    · obtain rfl := hf
      rfl
    · obtain rfl := hp
      exact ⟨Question.settle_eq_none_iff c n p, fun t ht => Question.settle_eq_some ht⟩

/-- A directory of two apps.  The pool of one of them is provisioned by kubernetes, and is served by
a cluster. -/
def twoPools : Connection :=
  ⟨"http://directory", "", Http.Server.ofRoutes [
    ("/apps/shop", [.response (.ofText 200 [] "\x7b\"name\":\"shop\",\"pool\":\"web\"\x7d")]),
    ("/apps/old", [.response (.ofText 200 [] "\x7b\"name\":\"old\",\"pool\":\"hosts\"\x7d")]),
    ("/pools/web", [.response
      (.ofText 200 [] "\x7b\"name\":\"web\",\"provisioner\":\"kubernetes\"\x7d")]),
    ("/pools/hosts", [.response
      (.ofText 200 [] "\x7b\"name\":\"hosts\",\"provisioner\":\"docker\"\x7d")]),
    ("/provisioner/clusters", [.response (.ofText 200 [] ("[\x7b\"name\":\"one\"," ++
      "\"provisioner\":\"kubernetes\",\"pools\":[\"web\"],\"addresses\":" ++
      "[\"https://one\"]\x7d]"))])]⟩

/-- The cache after the app in the pool of hosts was resolved. -/
def afterOld : Cache := (Cache.empty.resolve twoPools (appNamed "old")).2

/-- An app of that name. -/
theorem of?_appNamed (name : String) :
    Question.of? (appNamed name) = some (.app ⟨name, ""⟩) := rfl

/-- That app resolves to nothing once more, and the other one to a target. -/
theorem accepted_resolves_twoPools : (appNamed "old").isValid = true ∧
    (appNamed "shop").isValid = true ∧ (afterOld.resolve twoPools (appNamed "old")).1 = .ok none ∧
    ∃ t, (afterOld.resolve twoPools (appNamed "shop")).1 = .ok (some t) := by
  have hcache : Cache.IsReached twoPools afterOld := .resolve .empty _
  have hold : (appNamed "old").isValid = true := by decide +kernel
  have hshop : (appNamed "shop").isValid = true := by decide +kernel
  obtain ⟨q, hq, -, hhosts⟩ := ((accepted_resolves hold).2 _ _ hcache).2.2 (.inl rfl)
  obtain ⟨q', hq', -, hweb⟩ := ((accepted_resolves hshop).2 _ _ hcache).2.2 (.inl rfl)
  rw [of?_appNamed] at hq hq'
  obtain rfl := Option.some.inj hq
  obtain rfl := Option.some.inj hq'
  have hhostsFound : ((Question.app ⟨"old", ""⟩).home twoPools afterOld.memory).1.toOption =
      some ⟨"hosts", "docker"⟩ := by decide +kernel
  have hwebFound : ((Question.app ⟨"shop", ""⟩).home twoPools afterOld.memory).1.toOption =
      some ⟨"web", "kubernetes"⟩ := by decide +kernel
  have htarget : (Question.targetOf twoPools ((Question.app ⟨"shop", ""⟩).home twoPools
      afterOld.memory).2 ⟨"web", "kubernetes"⟩).1.toOption.isSome = true := by decide +kernel
  obtain ⟨t, ht⟩ := Option.isSome_iff_exists.mp htarget
  have hnone := (hhosts _ (ok_of_toOption hhostsFound)).1.mpr (by decide)
  have hsome := (hweb _ (ok_of_toOption hwebFound)).2 t (ok_of_toOption ht)
  exact ⟨hold, hshop, hnone, t, hsome⟩

end AccessRules.Resolution
