import AccessRules.Proofs.Endpoint.Filtering
import AccessRules.Proofs.Rule.Refinement

/-!
# Selecting rules by copied columns

**Program** — `Database.selectRules` looks for rules by labels, by creator, and by the app or the job
they start from.  Creator, app and job are compared in columns of the rows, where the app and the job
are copies of what the stored source says; labels are compared after reading.

**Spec** — in a store that callers bring about from an empty one the copies say what the stored
source says, and what is selected are exactly those stored rules that are as wanted themselves, in
the strict order of their identifiers (`selectRules_lists_admitted`).

**Crux** — a name that is wanted is not empty, so it makes no difference that an empty name is copied
as none; and as every row is the row of a rule that is read back, the columns can be read off that
rule (`Selection.admitsRow_ofRule`).
-/

namespace AccessRules

open Calendar Storage

namespace Labels

/-- Labels hold if each wanted one is there with its value. -/
theorem hold_iff {labels wanted : Labels} :
    labels.hold wanted = true ↔ ∀ l ∈ wanted, labels.get? l.1 = some l.2 := by
  simp [hold]

end Labels

namespace Rule

/-- A rule is as wanted: it has the wanted labels, the creator, and starts from the app and from the
job, if these are given. -/
structure Selection.Admits (s : Selection) (rule : Rule) : Prop where
  labels : ∀ l ∈ s.metadata, rule.metadata.get? l.1 = some l.2
  creator : s.creator ≠ "" → rule.creator = s.creator
  app : s.sourceApp ≠ "" → ∃ app, rule.source.app = some app ∧ app.name = s.sourceApp
  job : s.sourceJob ≠ "" → ∃ job, rule.source.job = some job ∧ job.name = s.sourceJob

/-- A name that is not empty stands in a copied column exactly if it is that of the target. -/
theorem name_filter_eq_some {α : Type} {name : α → String} {target : Option α} {wanted : String}
    (hwanted : wanted ≠ "") :
    (target.map name).filter (!·.isEmpty) = some wanted ↔
      ∃ a, target = some a ∧ name a = wanted := by
  rw [Option.filter_eq_some_iff, Option.map_eq_some_iff]
  refine and_iff_left_of_imp fun _ => ?_
  simpa using hwanted

/-- **The columns of a rule are as wanted exactly if the rule itself is.** -/
theorem Selection.admitsRow_ofRule {s : Selection} {rule : Rule} :
    s.admitsRow (Row.ofRule rule) = true ∧ rule.metadata.hold s.metadata = true ↔
      s.Admits rule := by
  rw [admitsRow, Bool.and_eq_true, Bool.and_eq_true, isEmpty_or_iff, isEmpty_or_iff,
    isEmpty_or_iff, Labels.hold_iff, beq_iff_eq, beq_iff_eq, beq_iff_eq]
  have happ : s.sourceApp ≠ "" → ((Row.ofRule rule).sourceApp = some s.sourceApp ↔
      ∃ app, rule.source.app = some app ∧ app.name = s.sourceApp) := name_filter_eq_some
  have hjob : s.sourceJob ≠ "" → ((Row.ofRule rule).sourceJob = some s.sourceJob ↔
      ∃ job, rule.source.job = some job ∧ job.name = s.sourceJob) := name_filter_eq_some
  rw [forall_congr' happ, forall_congr' hjob]
  constructor
  · rintro ⟨⟨⟨hcreator, happ⟩, hjob⟩, hlabels⟩
    exact ⟨hlabels, hcreator, happ, hjob⟩
  · rintro ⟨hlabels, hcreator, happ, hjob⟩
    exact ⟨⟨⟨hcreator, happ⟩, hjob⟩, hlabels⟩

end Rule

namespace Storage.Database

open Rule

/-- A rule is stored if a row is read as it. -/
def Holds (d : Database) (rule : Rule) : Prop := ∃ row ∈ d.rules, row.rule = .ok rule

/-- An answer lists those stored rules that have a property, all of them and each once, in the order
of their identifiers. -/
def Lists (d : Database) (answer : Except Failure (List Rule)) (wanted : Rule → Prop) : Prop :=
  ∃ found, answer = .ok found ∧ found.Pairwise (fun a b => a.id < b.id) ∧
    ∀ rule, rule ∈ found ↔ d.Holds rule ∧ wanted rule

/-- Where all rows are read back, the rules that are selected are those that are as wanted. -/
theorem selectRules_lists {d : Database} (hversion : d.version.isSome = true)
    (hids : d.rules.ids.Nodup) (hlegible : d.rules.IsLegible) (s : Selection) :
    d.Lists (d.selectRules true s) s.Admits := by
  obtain ⟨found, hfound, hsorted, hmem⟩ := hlegible.select hids s
  refine ⟨found, (selectRules_eq hversion s).trans hfound, hsorted, fun rule => ?_⟩
  rw [hmem]
  constructor
  · rintro ⟨⟨row, hrow, hadmitted, hread⟩, hlabels⟩
    obtain rfl := hlegible.eq_ofRule hrow hread
    exact ⟨⟨_, hrow, hread⟩, Selection.admitsRow_ofRule.mp ⟨hadmitted, hlabels⟩⟩
  · rintro ⟨⟨row, hrow, hread⟩, hwanted⟩
    obtain rfl := hlegible.eq_ofRule hrow hread
    obtain ⟨hadmitted, hlabels⟩ := Selection.admitsRow_ofRule.mpr hwanted
    exact ⟨⟨_, hrow, hadmitted, hread⟩, hlabels⟩

end Storage.Database

namespace Rule

/-- **Looking by copied columns finds what looking through the rules would find.**  In a store that
callers bring about from an empty one every row is read as a rule, and its columns for the app and
the job say what the source of that rule says.  Whatever is wanted, exactly those stored rules are
selected that have the wanted labels and creator and start from the wanted app and job, as far as
these are given; they are listed in the strict order of their identifiers. -/
theorem selectRules_lists_admitted {s : Store} (hs : s.IsEmpty) {calls : List Call}
    (hcalls : ∀ c ∈ calls, c.IsProper) :
    let d := (s.run calls).database
    (∀ row ∈ d.rules, ∃ rule, row.rule = .ok rule ∧ row.sourceApp = rule.sourceApp? ∧
      row.sourceJob = rule.sourceJob?) ∧
    ∀ wanted : Selection, d.Lists (d.selectRules true wanted) wanted.Admits := by
  obtain ⟨hversion, hids, hlegible⟩ := isLegible_run hs hcalls
  refine ⟨fun row hrow => ?_, Database.selectRules_lists hversion hids hlegible⟩
  obtain ⟨rule, hstorable, rfl⟩ := hlegible row hrow
  exact ⟨rule, Row.rule_ofRule hstorable, rfl, rfl⟩

/-- A rule from an endpoint. -/
def ruleFrom (source : Endpoint) : Rule := ⟨"rule", "", source, .empty, false, [], .utc 0, ""⟩

/-- A rule from a job. -/
def ruleFromJob : Rule := ruleFrom { Endpoint.empty with job := some ⟨"nightly"⟩ }

/-- A rule from an app is stored, and replaced by one from a job. -/
def replacedByJob : List Call :=
  [⟨true, 0, .save [ruleFrom { Endpoint.empty with app := some ⟨"shop", ""⟩ }] false⟩,
    ⟨true, 0, .save [ruleFromJob] true⟩]

/-- A rule that was replaced is found under its job and no longer under its app. -/
theorem selectRules_lists_admitted_replaced :
    Store.fresh.IsEmpty ∧ (∀ c ∈ replacedByJob, c.IsProper) ∧
      (Store.fresh.run replacedByJob).database.selectRules true
        { Selection.all with sourceApp := "shop" } = .ok [] ∧
      ∃ found, (Store.fresh.run replacedByJob).database.selectRules true
        { Selection.all with sourceJob := "nightly" } = .ok found ∧ ruleFromJob ∈ found := by
  have hcalls : ∀ c ∈ replacedByJob, c.IsProper := by decide
  obtain ⟨_, hlists⟩ := selectRules_lists_admitted Store.isEmpty_fresh hcalls
  have hrows : (Store.fresh.run replacedByJob).database.rules = [Row.ofRule ruleFromJob] := rfl
  have hread : (Row.ofRule ruleFromJob).rule = .ok ruleFromJob :=
    Row.rule_ofRule ⟨by decide, 0, by decide, rfl⟩
  obtain ⟨fromApp, hfromApp, _, happ⟩ := hlists { Selection.all with sourceApp := "shop" }
  obtain ⟨fromJob, hfromJob, _, hjob⟩ := hlists { Selection.all with sourceJob := "nightly" }
  refine ⟨Store.isEmpty_fresh, hcalls, ?_, fromJob, hfromJob, (hjob ruleFromJob).mpr ⟨?_, ?_⟩⟩
  · rw [hfromApp, Except.ok.injEq, List.eq_nil_iff_forall_not_mem]
    intro rule hrule
    -- the only rule that is stored has no app
    obtain ⟨⟨row, hrow, hrule⟩, hadmits⟩ := (happ rule).mp hrule
    rw [hrows, List.mem_singleton] at hrow
    rw [hrow, hread] at hrule
    obtain ⟨app, happ, _⟩ := hadmits.app (by decide)
    rw [← Except.ok.inj hrule] at happ
    cases happ
  · exact ⟨_, hrows ▸ List.mem_singleton_self _, hread⟩
  · exact ⟨nofun, fun h => absurd rfl h, fun h => absurd rfl h, fun _ => ⟨_, rfl, rfl⟩⟩

end Rule

end AccessRules
