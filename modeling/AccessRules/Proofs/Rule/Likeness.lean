import AccessRules.Proofs.Rule.Selecting

/-!
# Looking for rules by a partial rule

**Program** — `Database.rulesLike` looks for the rules that are like a filter: those with its labels
and its creator, both ends of which match its ends.

**Spec** — a rule that is found should meet the filter in all that it sets (`Rule.Meets`).  In a
store that callers can bring about the rules that are found, in the order of their identifiers, are
those that meet the *compared* part of the filter, so none is missed that meets all of it; and only
such are found in every store exactly if the filter asks for no job, no instance and no cluster at
either end (`rulesLike_exact_iff`).

**Crux** — the part of a filter that is compared is a rule itself.  Stored, it is found; and if
something was left out of the filter, it does not meet it.
-/

namespace AccessRules

open Calendar Storage

/-- Where no label stands twice, labels are there with their values. -/
theorem Labels.get?_of_mem {labels : Labels} (h : (labels.map Prod.fst).Nodup)
    {l : String × String} (hl : l ∈ labels) : labels.get? l.1 = some l.2 := by
  induction labels with
  | nil => cases hl
  | cons first labels ih =>
    rw [List.map_cons, List.nodup_cons] at h
    rw [get?, List.find?_cons]
    rcases List.mem_cons.mp hl with rfl | hl
    · simp
    · have hne : (first.1 == l.1) = false := by
        rw [beq_eq_false_iff_ne]
        exact fun heq => h.1 (heq ▸ List.mem_map_of_mem hl)
      rw [hne]
      exact ih h.2 hl

namespace Rule

/-! ## Meeting a filter -/

/-- A rule meets a filter: it has its labels and its creator, and both ends meet its ends. -/
structure Meets (rule filter : Rule) : Prop where
  labels : ∀ l ∈ filter.metadata, rule.metadata.get? l.1 = some l.2
  creator : filter.creator ≠ "" → rule.creator = filter.creator
  source : rule.source.Meets filter.source
  destination : rule.destination.Meets filter.destination

/-- The part of a filter that is compared. -/
def compared (filter : Rule) : Rule :=
  { filter with
    source := filter.source.compared
    destination := filter.destination.compared }

theorem Meets.compared {rule filter : Rule} (h : rule.Meets filter) :
    rule.Meets filter.compared :=
  ⟨h.labels, h.creator, h.source.compared, h.destination.compared⟩

end Rule

namespace Storage.Database

open Rule

/-- **The rules that are found are those that meet what is compared of the filter.** -/
theorem rulesLike_lists {d : Database} (hversion : d.version.isSome = true)
    (hids : d.rules.ids.Nodup) (hlegible : d.rules.IsLegible) (filter : Rule) :
    d.Lists (d.rulesLike true filter) (·.Meets filter.compared) := by
  obtain ⟨found, hfound, hsorted, hmem⟩ := selectRules_lists hversion hids hlegible
    { Selection.all with metadata := filter.metadata, creator := filter.creator }
  refine ⟨found.filter (·.matchesFilter filter), ?_, hsorted.filter _, fun rule => ?_⟩
  · rw [rulesLike, hfound]
    rfl
  rw [List.mem_filter, hmem, Rule.matchesFilter, Bool.and_eq_true, Endpoint.matchesFilter_iff,
    Endpoint.matchesFilter_iff]
  constructor
  · rintro ⟨⟨hholds, hadmits⟩, hsource, hdestination⟩
    exact ⟨hholds, hadmits.labels, hadmits.creator, hsource, hdestination⟩
  · rintro ⟨hholds, hmeets⟩
    exact ⟨⟨hholds, hmeets.labels, hmeets.creator, fun h => absurd rfl h, fun h => absurd rfl h⟩,
      hmeets.source, hmeets.destination⟩

end Storage.Database

namespace Rule

/-! ## A filter that is stored -/

/-- What is compared of a filter as a rule that can be stored. -/
def stored (filter : Rule) : Rule :=
  { filter.compared with id := "rule", name := "", removed := false, created := .utc 0 }

/-- Storing what is compared of a filter. -/
def storing (filter : Rule) : List Call := [⟨true, 0, .save [filter.stored] false⟩]

variable {filter : Rule}

theorem isProper_storing (hlabels : (filter.metadata.map Prod.fst).Nodup) :
    ∀ c ∈ storing filter, c.IsProper := by
  intro c hc
  rw [List.mem_singleton.mp hc]
  have hnow : inCalendar 0 = true := by decide
  refine ⟨hnow, fun rule hrule => ?_⟩
  rw [List.mem_singleton.mp hrule]
  exact hlabels

theorem holds_storing (hlabels : (filter.metadata.map Prod.fst).Nodup) :
    (Store.fresh.run (storing filter)).database.Holds filter.stored := by
  have hrows : (Store.fresh.run (storing filter)).database.rules = [Row.ofRule filter.stored] := rfl
  refine ⟨Row.ofRule filter.stored, ?_, Row.rule_ofRule ⟨hlabels, 0, by decide, rfl⟩⟩
  rw [hrows]
  exact List.mem_singleton_self _

/-- What is stored meets what is compared. -/
theorem meets_stored (hlabels : (filter.metadata.map Prod.fst).Nodup) :
    filter.stored.Meets filter.compared where
  labels _ hl := Labels.get?_of_mem hlabels hl
  creator _ := rfl
  source := .refl _
  destination := .refl _

/-! ## The store -/

/-- **What a look-up by a partial rule finds, and when it is exact.**  In every store that callers
bring about from an empty one it lists the stored rules that meet the compared part of the filter, in
the strict order of their identifiers, and every rule that meets the filter meets that part.  It
lists exactly those that meet the filter in every such store if and only if neither end of the filter
asks for anything else: for a job, an instance or the cluster of a service. -/
theorem rulesLike_exact_iff {filter : Rule} (hlabels : (filter.metadata.map Prod.fst).Nodup) :
    (∀ (s : Store) (calls : List Call), s.IsEmpty → (∀ c ∈ calls, c.IsProper) →
      (s.run calls).database.Lists ((s.run calls).database.rulesLike true filter)
        (·.Meets filter.compared)) ∧
    (∀ rule : Rule, rule.Meets filter → rule.Meets filter.compared) ∧
    ((∀ (s : Store) (calls : List Call), s.IsEmpty → (∀ c ∈ calls, c.IsProper) →
      (s.run calls).database.Lists ((s.run calls).database.rulesLike true filter)
        (·.Meets filter)) ↔ filter.source.IsCompared ∧ filter.destination.IsCompared) := by
  have hlists : ∀ (s : Store) (calls : List Call), s.IsEmpty → (∀ c ∈ calls, c.IsProper) →
      (s.run calls).database.Lists ((s.run calls).database.rulesLike true filter)
        (·.Meets filter.compared) := by
    intro s calls hs hcalls
    obtain ⟨hversion, hids, hlegible⟩ := isLegible_run hs hcalls
    exact Database.rulesLike_lists hversion hids hlegible filter
  refine ⟨hlists, fun rule => Meets.compared, fun hexact => ?_, ?_⟩
  · have hproper := isProper_storing hlabels
    obtain ⟨found, hfound, _, hmem⟩ := hlists _ _ Store.isEmpty_fresh hproper
    obtain ⟨found', hfound', _, hmem'⟩ := hexact _ _ Store.isEmpty_fresh hproper
    obtain rfl := Except.ok.inj (hfound.symm.trans hfound')
    -- the compared part is found, so it would have to meet the whole filter
    have hstored := (hmem filter.stored).mpr ⟨holds_storing hlabels, meets_stored hlabels⟩
    have hmeets := ((hmem' filter.stored).mp hstored).2
    exact ⟨Endpoint.isCompared_of_meets hmeets.source,
      Endpoint.isCompared_of_meets hmeets.destination⟩
  · rintro ⟨hsource, hdestination⟩
    have hall : filter.compared = filter := by
      rw [compared, hsource.compared_eq, hdestination.compared_eq]
    rw [hall] at hlists
    exact hlists

/-- A rule that lets a job reach a host. -/
def jobRule (id job : String) : Rule where
  id := id
  name := ""
  source := { Endpoint.empty with job := some ⟨job⟩ }
  destination := { Endpoint.empty with dns := some ⟨"example.com", none, false⟩ }
  removed := false
  metadata := []
  created := .utc 0
  creator := ""

/-- Storing rules of two jobs. -/
def savedJobs : List Call := [⟨true, 0, .save [jobRule "a" "first", jobRule "b" "second"] false⟩]

theorem isProper_savedJobs : ∀ c ∈ savedJobs, c.IsProper := by decide

/-- A filter for rules from an endpoint. -/
def filterFrom (source : Endpoint) : Rule := ⟨"", "", source, .empty, false, [], .utc 0, ""⟩

/-- A filter for rules from an app. -/
def appFilter : Rule := filterFrom { Endpoint.empty with app := some ⟨"shop", ""⟩ }

/-- A filter for rules from the first job. -/
def jobFilter : Rule := filterFrom { Endpoint.empty with job := some ⟨"first"⟩ }

/-- A look-up by an app is exact, whatever is stored. -/
theorem rulesLike_exact_iff_app :
    (appFilter.metadata.map Prod.fst).Nodup ∧
      (Store.fresh.run savedJobs).database.Lists
        ((Store.fresh.run savedJobs).database.rulesLike true appFilter) (·.Meets appFilter) := by
  have hlabels : (appFilter.metadata.map Prod.fst).Nodup := by decide
  exact ⟨hlabels, (rulesLike_exact_iff hlabels).2.2.mpr ⟨⟨rfl, rfl, nofun⟩, ⟨rfl, rfl, nofun⟩⟩
    Store.fresh savedJobs Store.isEmpty_fresh isProper_savedJobs⟩

/-- A look-up by the first job finds the valid rule of the second one, too. -/
theorem not_rulesLike_exact_job :
    (∀ rule ∈ [jobRule "a" "first", jobRule "b" "second"], rule.isValid = true) ∧
      (∃ found, (Store.fresh.run savedJobs).database.rulesLike true jobFilter = .ok found ∧
        jobRule "b" "second" ∈ found) ∧
      ¬ (Store.fresh.run savedJobs).database.Lists
        ((Store.fresh.run savedJobs).database.rulesLike true jobFilter) (·.Meets jobFilter) := by
  have hvalid : ∀ rule ∈ [jobRule "a" "first", jobRule "b" "second"], rule.isValid = true := by
    decide +kernel
  obtain ⟨hversion, hids, hlegible⟩ := isLegible_run Store.isEmpty_fresh isProper_savedJobs
  obtain ⟨found, hfound, _, hmem⟩ := Database.rulesLike_lists hversion hids hlegible jobFilter
  -- it is stored, and what is compared of the filter asks for nothing
  have hsecond : jobRule "b" "second" ∈ found := by
    refine (hmem _).mpr ⟨⟨Row.ofRule (jobRule "b" "second"), .tail _ (.head _),
      Row.rule_ofRule ⟨by decide, 0, by decide, rfl⟩⟩, ?_⟩
    exact ⟨nofun, fun h => absurd rfl h, ⟨nofun, nofun, nofun, nofun, nofun, nofun⟩,
      ⟨nofun, nofun, nofun, nofun, nofun, nofun⟩⟩
  refine ⟨hvalid, ⟨found, hfound, hsecond⟩, ?_⟩
  rintro ⟨found', hfound', _, hmem'⟩
  obtain rfl := Except.ok.inj (hfound.symm.trans hfound')
  obtain ⟨j, hj, hmeets⟩ := ((hmem' _).mp hsecond).2.source.job _ rfl
  obtain rfl := Option.some.inj hj
  exact absurd (hmeets.name (by decide)) (by decide)

end Rule

end AccessRules
