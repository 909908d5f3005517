import AccessRules.Endpoint.Validity
import AccessRules.Proofs.Directory.Failing
import AccessRules.Proofs.Fallible
import AccessRules.Proofs.Resolution.Composing
import AccessRules.Proofs.Resolution.Remembering

/-!
# How resolutions fail

**Program** — `Cache.resolve` finds an endpoint in the memo of the cache, or asks the directory for its
app or job, for the pool and for the clusters, one after the other.

**Spec** — whatever the directory answers, an endpoint should resolve to a target or to nothing, or
fail with a fault of resolution.  So it does unless something has to be looked up that there is no
request for, the web library breaks down over an answer, or the directory answers the list of clusters
with a number other than zero or with true (`resolve_foreseen_iff`).

What the web library makes of what comes back is left open, up to the document it reads in a body or
the way in which it fails to.  Only that documents hold Unicode text is taken for granted: nothing is
said of a name with half of a surrogate pair.

**Crux** — resolving passes on how its look-ups fail, and adds nothing but faults of resolution.  It is
put together of steps that list what they look up (`asks_resolve`), and over one cache the memory of
the directory stays sound (`Cache.isSound_after`).
-/

namespace AccessRules.Resolution

open Directory

variable {c : Connection}

/-! ## What is looked up -/

namespace Question

/-- The topic that leads to the pool; an app given by its pool, and what names nothing, have none. -/
def topic? : Question → Option Topic
  | .app a => if a.name.isEmpty then none else some (.app a.name)
  | .job j => if j.name.isEmpty then none else some (.job j.name)

/-- What is looked up to find the target of a pool of some name. -/
def looksOfPool (c : Connection) (name : String) (m : Memory) : List Look :=
  [⟨.pool name, m⟩] ++ looksAfter (Lookup.pool.run c name m) fun p n =>
    if p.isServed then [⟨.clusters, n⟩] else []

/-- What is looked up to answer a question. -/
def looks (c : Connection) (q : Question) (m : Memory) : List Look :=
  (q.topic?.map (Look.mk · m)).toList ++ looksAfter (q.pool c m) (looksOfPool c)

/-- Finding the pool looks up the app or the job. -/
theorem asks_pool (c : Connection) (q : Question) :
    Asks c (q.pool c ·) fun m => (q.topic?.map (Look.mk · m)).toList := by
  cases q with
  | app a =>
    simp only [pool, topic?]
    cases a.name.isEmpty with
    | false => exact (Directory.asks_app c a.name).map fun _ _ => strays_map_iff
    | true =>
      cases a.pool.isEmpty with
      | false => exact .pure c (not_strays_ok _)
      | true => exact .pure c (not_strays_fault rfl)
  | job j =>
    simp only [pool, topic?]
    cases j.name.isEmpty with
    | false => exact (Directory.asks_job c j.name).map fun _ _ => strays_map_iff
    | true => exact .pure c (not_strays_fault rfl)

/-- What is made of a cluster is a target or a fault of resolution. -/
theorem not_strays_accessTo (cluster : Cluster) (f : Failure) : ¬ Strays (accessTo cluster) f := by
  intro h
  rcases strays_bind_iff.mp h with h | ⟨access, _, h⟩
  · rw [sections] at h
    split at h
    · exact not_strays_ok _ f h
    · exact not_strays_fault rfl f h
    · exact not_strays_ok _ f h
  · exact not_strays_ok _ f h

/-- Finding the target of a pool that is served looks up the clusters. -/
theorem asks_targetOf (c : Connection) {p : Pool} (hserved : p.isServed = true) :
    Asks c (targetOf c · p) fun m => [⟨.clusters, m⟩] := by
  have hcluster : Asks c (poolCluster c p) fun m => [⟨.clusters, m⟩] := by
    unfold poolCluster
    simp only [hserved, Bool.not_true, Bool.false_eq_true, if_false]
    refine (asks_clusters c).map (g := fun cs => cs.bind _) fun cs f => ?_
    refine strays_bind_iff.trans (or_iff_left ?_)
    rintro ⟨cs, _, h⟩
    split at h
    · exact not_strays_ok _ f h
    · exact not_strays_fault rfl f h
  refine hcluster.map (g := fun found => found.bind _) fun found f => ?_
  refine strays_bind_iff.trans (or_iff_left ?_)
  rintro ⟨cluster, _, h⟩
  exact not_strays_accessTo cluster f (strays_map_iff.mp h)

/-- Finding the target of a pool of some name looks up the pool, and the clusters if the pool is
served. -/
theorem asks_ofPool (c : Connection) (name : String) :
    Asks c (ofPool c · name) (looksOfPool c name) := by
  refine (Directory.asks_pool c name).andThen (g := settle c) (fun p => ?_) (fun m n e heq => ?_)
    (fun m n p heq => ?_)
  · unfold settle
    cases hserved : p.isServed with
    | false => exact .pure c (not_strays_ok _)
    | true => exact (asks_targetOf c hserved).map fun _ _ => strays_map_iff
  · rw [ofPool_eq, heq]
  · rw [ofPool_eq, heq]

theorem asks_answer (c : Connection) (q : Question) : Asks c (answer c · q) (q.looks c) := by
  refine (asks_pool c q).andThen (asks_ofPool c) (fun m n e heq => ?_) (fun m n name heq => ?_)
  · rw [answer, heq]
  · rw [answer, heq]

end Question

/-- What is looked up to resolve an endpoint. -/
def looks (c : Connection) (e : Endpoint) (m : Memory) : List Look :=
  match Question.of? e with
  | none => []
  | some q => q.looks c m

/-- **Resolving an endpoint fails in another way only as one of its look-ups does.** -/
theorem asks_resolve (c : Connection) (e : Endpoint) :
    Asks c (Resolution.resolve c · e) (looks c e) := by
  unfold Resolution.resolve looks
  cases Question.of? e with
  | none => exact .pure c (not_strays_ok _)
  | some q => exact Question.asks_answer c q

/-! ## Resolving over a cache -/

namespace Cache

/-- The cache after some endpoints were resolved, the first of them over a new one. -/
def after (c : Connection) (es : List Endpoint) : Cache :=
  es.foldl (fun cache e => (cache.resolve c e).2) .empty

/-- A call leaves the memory of the cache as it is, or as resolving leaves it. -/
theorem resolve_isSound {cache : Cache} (h : cache.memory.IsSound) (e : Endpoint) :
    (cache.resolve c e).2.memory.IsSound := by
  rw [resolve_eq_resolveBy]
  cases hknown : cache.memo.lookup e.canonical with
  | some target => rwa [resolveBy_known hknown]
  | none =>
    have hsound := (asks_resolve c e).sound _ h
    rcases resolveBy_unknown (Resolution.resolve c) hknown with ⟨f, _, heq⟩ | ⟨target, _, heq⟩
    · rwa [heq]
    · rwa [heq]

/-- However many endpoints were resolved, the memory is sound. -/
theorem isSound_after (c : Connection) (es : List Endpoint) : (after c es).memory.IsSound := by
  induction es using List.reverseRecOn with
  | nil => exact Memory.isSound_empty
  | append_singleton es e ih =>
    rw [after, List.foldl_append]
    exact resolve_isSound ih e

/-- **When a call fails with no fault of resolution.** -/
theorem strays_resolve_iff {cache : Cache} (h : cache.memory.IsSound) (e : Endpoint)
    (f : Failure) : Strays (cache.resolve c e).1 f ↔
      cache.memo.lookup e.canonical = none ∧ ∃ l ∈ looks c e cache.memory, l.IsAstray c f := by
  rw [resolve_eq_resolveBy]
  cases hknown : cache.memo.lookup e.canonical with
  | some target =>
    rw [resolveBy_known hknown]
    exact iff_of_false (not_strays_ok _ f) nofun
  | none =>
    have hasks := asks_resolve c e
    have hlooks : (∃ l ∈ looks c e cache.memory, l.IsAstray c f) ↔
        Strays (Resolution.resolve c cache.memory e).1 f := by
      rw [hasks.strays]
      refine exists_congr fun l => and_congr_right fun hl => ?_
      exact (Look.strays_iff (hasks.sounds _ h l hl)).symm
    rw [hlooks, and_iff_right rfl]
    rcases resolveBy_unknown (Resolution.resolve c) hknown with
      ⟨f', hf', heq⟩ | ⟨target, htarget, heq⟩
    · rw [heq, hf']
    · rw [heq, htarget]

end Cache

/-- **A resolution fails with a fault of resolution, unless it cannot ask, cannot read what it hears,
or hears of no list of clusters.**  Over a connection to a web server, whatever the web library makes
of what the server answers and whatever was resolved before: an endpoint resolves to a target or to
nothing or fails with a fault of resolution if and only if it is in the memo, or each of its look-ups
of which nothing is known goes well: it asks for a path that can be asked for, the web library does
not break down over the answer, and the list of clusters is not answered with a document that counts
for something and has no parts.  It fails otherwise exactly as one of its look-ups goes astray. -/
theorem resolve_foreseen_iff {c : Connection} {address : Http.Address} (hc : c.IsAt address)
    (earlier : List Endpoint) (e : Endpoint) :
    let cache := Cache.after c earlier
    (isForeseen (cache.resolve c e).1 = true ↔
      (cache.memo.lookup e.canonical = none → ∀ l ∈ looks c e cache.memory,
        l.topic.about? l.memory = none → l.GoesWell c address)) ∧
    ∀ f, Strays (cache.resolve c e).1 f ↔
      cache.memo.lookup e.canonical = none ∧ ∃ l ∈ looks c e cache.memory, l.IsAstray c f := by
  have hsound := Cache.isSound_after c earlier
  intro cache
  have hstrays := Cache.strays_resolve_iff (c := c) (show cache.memory.IsSound from hsound) e
  refine ⟨?_, hstrays⟩
  rw [isForeseen_iff]
  simp only [hstrays, not_and, not_exists]
  constructor
  · intro h hnew l hl
    exact (Look.goesWell_iff hc).mp fun f => h f hnew l hl
  · intro h f hnew l hl
    exact (Look.goesWell_iff hc).mpr (h hnew l hl) f

/-- An app by name. -/
def appNamed (name : String) : Endpoint := { Endpoint.empty with app := some ⟨name, ""⟩ }

/-- A directory that knows an app in a pool, and lists clusters in some way. -/
def directoryOfShop (pool clusters : String) : Connection :=
  ⟨"http://directory", "", Http.Server.ofRoutes [
    ("/apps/shop", [.response
      (.ofText 200 [] ("\x7b\"name\":\"shop\",\"pool\":\"" ++ pool ++ "\"\x7d"))]),
    ("/pools/web", [.response
      (.ofText 200 [] "\x7b\"name\":\"web\",\"provisioner\":\"kubernetes\"\x7d")]),
    ("/provisioner/clusters", [.response (.ofText 200 [] clusters)])]⟩

/-- The address of a directory. -/
def directoryAddress : Http.Address :=
  ⟨"http".toList, [], "directory".toList, none, [], none, none⟩

theorem isAt_directoryAddress (pool clusters : String) :
    (directoryOfShop pool clusters).IsAt directoryAddress := by
  have hbase : ((Http.Address.parse (directoryOfShop "" "").base).bind
      Http.Address.asBase).toOption = some directoryAddress := by decide +kernel
  exact ⟨ok_of_toOption hbase, .inl rfl, by decide, by decide +kernel⟩

/-- Over a directory that lists no clusters the app is looked up, its pool and the clusters, all of
which goes well; that no cluster was found is a fault of resolution. -/
theorem resolve_foreseen_iff_noClusters :
    (directoryOfShop "web" "[]").IsAt directoryAddress ∧
      ((looks (directoryOfShop "web" "[]") (appNamed "shop") .empty).map (·.topic) =
        [.app "shop", .pool "web", .clusters]) ∧
      isForeseen (Cache.empty.resolve (directoryOfShop "web" "[]") (appNamed "shop")).1 = true := by
  have hat := isAt_directoryAddress "web" "[]"
  generalize hc : directoryOfShop "web" "[]" = c at hat ⊢
  have htopics : (looks c (appNamed "shop") .empty).map (·.topic) =
      [.app "shop", .pool "web", .clusters] := by
    rw [← hc]
    decide +kernel
  have hrequest : ∀ t ∈ [.app "shop", .pool "web", Topic.clusters],
      (c.request t.path).isOk = true := by
    rw [← hc]
    decide +kernel
  have hwhole : ∀ l ∈ looks c (appNamed "shop") .empty,
      ((c.request l.topic.path).toOption.all fun r =>
        (breakdown? (c.server.handle l.memory.sent r)).isNone) = true := by
    rw [← hc]
    decide +kernel
  have hparts : ∀ l ∈ looks c (appNamed "shop") .empty,
      ((c.fetch l.topic.path l.memory).1.toOption.all fun v => !v.isPartless) = true := by
    rw [← hc]
    decide +kernel
  refine ⟨hat, htopics, (resolve_foreseen_iff hat [] (appNamed "shop")).1.mpr fun _ l hl _ => ?_⟩
  have ht : l.topic ∈ [.app "shop", .pool "web", Topic.clusters] :=
    htopics ▸ List.mem_map_of_mem hl
  refine ⟨(Connection.isOk_request_iff hat l.topic.isRooted_path).mp (hrequest _ ht),
    fun r hpath => ?_, fun _ v hanswer => ?_⟩
  · have hall := hwhole l hl
    rw [hpath] at hall
    simpa [Except.toOption] using hall
  · have hall := hparts l hl
    rw [hanswer] at hall
    simpa [Except.toOption] using hall

/-- A valid app resolves to no fault of resolution but to another failure if the clusters are listed
as a number or the name of its pool ends with a line break; and so does a valid app whose own name
ends with one. -/
theorem not_resolve_foreseen :
    ((appNamed "shop").isValid = true ∧ (appNamed "shop\n").isValid = true) ∧
    isForeseen (Cache.empty.resolve (directoryOfShop "web" "5") (appNamed "shop")).1 = false ∧
    isForeseen (Cache.empty.resolve (directoryOfShop "web\\n" "[]") (appNamed "shop")).1 = false ∧
    isForeseen (Cache.empty.resolve (directoryOfShop "web" "[]") (appNamed "shop\n")).1 = false := by
  decide +kernel

end AccessRules.Resolution
