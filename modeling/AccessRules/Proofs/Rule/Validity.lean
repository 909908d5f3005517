import AccessRules.Proofs.Rule.Refinement

/-!
# Only valid rules are stored

**Program** — what the service offers to those who keep rules in it: `Database.saveValid`, which
looks for flaws before anything else, `Database.removeRule` and `Database.removeLabelled`
(`Service.run`).

**Spec** — whatever is asked of the service, every rule that is listed afterwards is valid in its
name and at both ends; and a batch with an invalid rule anywhere in it is handed back as it was
given, with nothing stored and no identifier used up (`service_keeps_valid`).

**Crux** — the service only ever passes calls on to the store of rules or keeps them back
(`Service.run_eq`), so what the store keeps it keeps, too.  That a rule is still valid when it is
read again rests on its being read back as it was; marking it as removed touches none of what is
checked (`HoldsValid.remove`).
-/

namespace AccessRules

open Calendar Storage

namespace Rule

/-! ## Valid rules -/

/-- A rule is valid if its name is a domain or left out and both of its ends are valid. -/
theorem isValid_iff {r : Rule} :
    r.isValid = true ↔ (r.name = "" ∨ Name.domainFlaws r.name = []) ∧
      r.source.isValid = true ∧ r.destination.isValid = true := by
  have hname : r.nameFlaw? = none ↔ r.name = "" ∨ Name.domainFlaws r.name = [] := by
    by_cases h : r.name = "" <;> simp [nameFlaw?, h]
  rw [← hname, isValid, Endpoint.isValid, Endpoint.isValid, Option.isNone_iff_eq_none,
    Option.isNone_iff_eq_none, Option.isNone_iff_eq_none, flaw?]
  cases r.nameFlaw? <;> cases r.source.flaw? <;> cases r.destination.flaw? <;> simp

/-- Storing gives a rule its identifier and its moment; neither is looked at for flaws. -/
theorem isValid_assign {now : Instant} {rules : List Rule} (h : ∀ r ∈ rules, r.isValid = true)
    (ids : Supply) : ∀ r ∈ (assign now rules ids).1, r.isValid = true := by
  intro stored hstored
  obtain ⟨rule, hrule, _, _, rfl⟩ := (isAssigned_assign now rules ids).exists_of_mem hstored
  exact h rule hrule

/-! ## Tables of valid rules -/

/-- A table all of whose rows are read as valid rules. -/
def Table.HoldsValid (t : Table) : Prop :=
  ∀ row ∈ t, ∀ rule, row.rule = .ok rule → rule.isValid = true

namespace Table

theorem holdsValid_nil : HoldsValid [] := by
  intro row hrow
  cases hrow

theorem HoldsValid.putAll {t : Table} (h : t.HoldsValid) {rules : List Rule}
    (hrules : ∀ r ∈ rules, r.IsStorable ∧ r.isValid = true) :
    (t.putAll (rules.map Row.ofRule)).HoldsValid := by
  intro row hrow rule hread
  rcases mem_putAll.mp hrow with ⟨hrow, _⟩ | ⟨before, after, hsplit, _⟩
  · exact h row hrow rule hread
  · have hmem : row ∈ rules.map Row.ofRule := by
      rw [hsplit]
      simp
    obtain ⟨stored, hstored, rfl⟩ := List.mem_map.mp hmem
    obtain ⟨hstorable, hvalid⟩ := hrules stored hstored
    rw [Row.rule_ofRule hstorable] at hread
    obtain rfl := Except.ok.inj hread
    exact hvalid

/-- A row that is marked is read as the rule it was read as before, marked. -/
theorem rule_of_marked {row : Row} {rule : Rule}
    (h : Row.rule { row with removed := true } = .ok rule) :
    ∃ before, row.rule = .ok before ∧ rule = { before with removed := true } := by
  rw [Row.rule] at h
  obtain ⟨source, hsource, h⟩ := ok_of_bind h
  obtain ⟨destination, hdestination, h⟩ := ok_of_bind h
  obtain ⟨labels, hlabels, h⟩ := ok_of_bind h
  obtain ⟨created, hcreated, h⟩ := ok_of_bind h
  cases h
  refine ⟨⟨row.id, row.name.getD "", source, destination, row.removed, labels, created,
    row.creator⟩, ?_, rfl⟩
  rw [Row.rule, hsource, hdestination, hlabels, hcreated]
  rfl

theorem HoldsValid.remove {t t' : Table} (h : t.HoldsValid) {d : Removal} {n : Nat}
    (ht : t.remove d = .ok (n, t')) : t'.HoldsValid := by
  intro row' hrow' rule hread
  obtain ⟨row, hrow, rfl | rfl⟩ := mem_of_remove ht hrow'
  · exact h row' hrow rule hread
  · obtain ⟨before, hbefore, rfl⟩ := rule_of_marked hread
    exact h row hrow before hbefore

end Table

/-! ## The service -/

namespace Service

/-- What callers ask of the service. -/
inductive Request where
  | save (rules : List Rule) (replacing : Bool)
  | delete (id : String)
  | deleteLabelled (labels : Labels)
  deriving DecidableEq, Repr

/-- The rules a request hands over. -/
def Request.batch : Request → List Rule
  | .save rules _ => rules
  | .delete _ => []
  | .deleteLabelled _ => []

/-- A call of the service. -/
abbrev Call := Timed Request

/-- A call of the service that can be carried out. -/
abbrev Call.IsProper (c : Call) : Prop := Timed.IsProper Request.batch c

/-- The store after a call of the service. -/
def step (s : Store) (c : Call) : Store :=
  match c.request with
  | .save rules replacing =>
    let saved := s.database.saveValid c.connected c.now s.ids rules replacing
    ⟨saved.database, saved.ids⟩
  | .delete id =>
    match s.database.removeRule c.connected id with
    | .ok (_, database) => { s with database := database }
    | .error _ => s
  | .deleteLabelled labels =>
    match s.database.removeLabelled c.connected labels with
    | .ok (_, database) => { s with database := database }
    | .error _ => s

/-- The store after some calls of the service. -/
def run (s : Store) (calls : List Call) : Store := calls.foldl step s

/-- What the service asks of the store in its turn: everything but to store batches with flaws. -/
def Request.passedOn? : Request → Option Rule.Request
  | .save rules replacing =>
    if (Database.firstFlaw? rules).isNone then some (.save rules replacing) else none
  | .delete id => some (.remove ⟨id, []⟩)
  | .deleteLabelled labels => some (.remove ⟨"", labels⟩)

/-- The call of the store that a call of the service makes, if it makes one. -/
def Call.passedOn? (c : Call) : Option Rule.Call :=
  c.request.passedOn?.map fun request => ⟨c.connected, c.now, request⟩

end Service

end Rule

namespace Storage.Database

/-- No rule of a batch has a flaw exactly if all of them are valid. -/
theorem firstFlaw?_eq_none {rules : List Rule} :
    firstFlaw? rules = none ↔ ∀ r ∈ rules, r.isValid = true := by
  simp [firstFlaw?, Rule.isValid]

/-- A batch of valid rules is saved as the store saves it. -/
theorem saveValid_of_valid {rules : List Rule} (h : ∀ r ∈ rules, r.isValid = true) (d : Database)
    (connected : Bool) (now : Instant) (ids : Supply) (replacing : Bool) :
    d.saveValid connected now ids rules replacing = d.save connected now ids rules replacing := by
  rw [saveValid, firstFlaw?_eq_none.mpr h]

/-- A batch with a flaw is refused for the first of its flaws, before anything is done. -/
theorem saveValid_of_flaw {rules : List Rule} {flaw : Rule.Flaw}
    (h : firstFlaw? rules = some flaw) (d : Database) (connected : Bool) (now : Instant)
    (ids : Supply) (replacing : Bool) :
    d.saveValid connected now ids rules replacing = ⟨.error (.fault flaw.fault), rules, d, ids⟩ := by
  rw [saveValid, h]

end Storage.Database

namespace Rule.Service

/-- A call of the service is the call that is passed on, if one is. -/
theorem step_eq (s : Store) (c : Call) : step s c = (c.passedOn?.map s.step).getD s := by
  obtain ⟨connected, now, request⟩ := c
  cases request with
  | save rules replacing =>
    cases hflaw : Database.firstFlaw? rules with
    | none =>
      have hvalid := Database.firstFlaw?_eq_none.mp hflaw
      simp only [step, Call.passedOn?, Request.passedOn?, hflaw,
        Database.saveValid_of_valid hvalid]
      rfl
    | some flaw =>
      simp only [step, Call.passedOn?, Request.passedOn?, hflaw,
        Database.saveValid_of_flaw hflaw]
      rfl
  | delete id => rfl
  | deleteLabelled labels => rfl

/-- **The service does what the store does with the calls that are passed on.** -/
theorem run_eq (s : Store) (calls : List Call) :
    run s calls = s.run (calls.filterMap Call.passedOn?) := by
  induction calls generalizing s with
  | nil => rfl
  | cons c calls ih =>
    rw [run, List.foldl_cons, ← run, ih, step_eq, List.filterMap_cons]
    cases c.passedOn? with
    | none => rfl
    | some c' => rfl

/-- A batch that is passed on is the one the service was given, and its rules are valid. -/
theorem Request.save_of_passedOn {r : Request} {rules : List Rule} {replacing : Bool}
    (h : r.passedOn? = some (.save rules replacing)) :
    r = .save rules replacing ∧ ∀ rule ∈ rules, rule.isValid = true := by
  cases r with
  | save rules' replacing' =>
    rw [Request.passedOn?] at h
    split at h
    · next hnone =>
      cases h
      exact ⟨rfl, Database.firstFlaw?_eq_none.mp (Option.isNone_iff_eq_none.mp hnone)⟩
    · cases h
  | delete id => cases h
  | deleteLabelled labels => cases h

/-- What is passed on of proper calls is proper. -/
theorem isProper_passedOn {calls : List Call} (hcalls : ∀ c ∈ calls, c.IsProper) :
    ∀ c' ∈ calls.filterMap Call.passedOn?, c'.IsProper := by
  intro c' hc'
  obtain ⟨c, hc, hpassed⟩ := List.mem_filterMap.mp hc'
  obtain ⟨request, hrequest, rfl⟩ := Option.map_eq_some_iff.mp hpassed
  refine ⟨(hcalls c hc).inCalendar, ?_⟩
  cases request with
  | save rules replacing =>
    have hlabels := (hcalls c hc).labels
    rw [(Request.save_of_passedOn hrequest).1] at hlabels
    exact hlabels
  | remove d =>
    intro rule hrule
    cases hrule

/-- Every table that the service brings about holds valid rules. -/
theorem holdsValid_run {s : Store} (hs : s.IsEmpty) {calls : List Call}
    (hcalls : ∀ c ∈ calls, c.IsProper) : (run s calls).database.rules.HoldsValid := by
  rw [run_eq]
  refine (Store.run_keeps (K := fun rules => ∀ r ∈ rules, r.IsStorable ∧ r.isValid = true)
    Table.holdsValid_nil (fun t rules replacing h hrules _ => h.putAll hrules)
    (fun t t' d n h ht => h.remove ht) hs ?_).2
  -- the store is only ever given batches that the service has found without flaws
  intro c' hc' rules replacing hsave ids r hr
  have hproper := isProper_passedOn hcalls c' hc'
  obtain ⟨c, hc, hpassed⟩ := List.mem_filterMap.mp hc'
  obtain ⟨request, hrequest, rfl⟩ := Option.map_eq_some_iff.mp hpassed
  obtain rfl : request = .save rules replacing := hsave
  exact ⟨isStorable_assign hproper.inCalendar hproper.labels ids r hr,
    isValid_assign (Request.save_of_passedOn hrequest).2 ids r hr⟩

/-- **Only valid rules are ever stored through the service.**  After any calls from an empty store
all rules can be listed, and each of them has a name that is a domain, or none, and two valid ends.
A batch with an invalid rule anywhere in it is refused for the first flaw found in it, whatever the
state of the connection; the database, the supply of identifiers and the rules of the batch are then
what they were.  A batch of valid rules is saved as the store saves it. -/
theorem service_keeps_valid {s : Store} (hs : s.IsEmpty) {calls : List Call}
    (hcalls : ∀ c ∈ calls, c.IsProper) :
    let d := (run s calls).database
    (∃ found, d.allRules true = .ok found ∧ ∀ rule ∈ found,
      (rule.name = "" ∨ Name.domainFlaws rule.name = []) ∧ rule.source.isValid = true ∧
        rule.destination.isValid = true) ∧
    ∀ (connected : Bool) (now : Instant) (ids : Supply) (rules : List Rule) (replacing : Bool),
      let saved := d.saveValid connected now ids rules replacing
      ((∃ rule ∈ rules, rule.isValid = false) →
        (∃ before rule after flaw, rules = before ++ rule :: after ∧
          (∀ r ∈ before, r.isValid = true) ∧ rule.flaw? = some flaw ∧
          saved.answer = .error (.fault flaw.fault)) ∧
        saved.database = d ∧ saved.rules = rules ∧ saved.ids = ids) ∧
      ((∀ rule ∈ rules, rule.isValid = true) →
        saved = d.save connected now ids rules replacing) := by
  refine ⟨?_, fun connected now ids rules replacing => ⟨?_, fun hvalid => ?_⟩⟩
  · have hvalid := holdsValid_run hs hcalls
    rw [run_eq] at hvalid ⊢
    obtain ⟨hversion, hids, hlegible⟩ := isLegible_run hs (isProper_passedOn hcalls)
    obtain ⟨found, hfound, _, hmem⟩ := hlegible.select_all hids
    refine ⟨found, (allRules_eq hversion).trans hfound, fun rule hrule => ?_⟩
    obtain ⟨row, hrow, hread⟩ := (hmem rule).mp hrule
    exact isValid_iff.mp (hvalid row hrow rule hread)
  · rintro ⟨bad, hbad, hinvalid⟩
    cases hflaw : Database.firstFlaw? rules with
    | none =>
      rw [Database.firstFlaw?_eq_none.mp hflaw bad hbad] at hinvalid
      cases hinvalid
    | some flaw =>
      obtain ⟨before, rule, after, hsplit, hrule, hbefore⟩ :=
        List.findSome?_eq_some_iff.mp hflaw
      rw [Database.saveValid_of_flaw hflaw]
      exact ⟨⟨before, rule, after, flaw, hsplit,
        fun r hr => Option.isNone_iff_eq_none.mpr (hbefore r hr), hrule, rfl⟩, rfl, rfl, rfl⟩
  · exact Database.saveValid_of_valid hvalid _ _ _ _ _

/-- A rule that lets an app reach a host. -/
def appRule (app host : String) : Rule where
  id := ""
  name := ""
  source := { Endpoint.empty with app := some ⟨app, ""⟩ }
  destination := { Endpoint.empty with dns := some ⟨host, none, false⟩ }
  removed := false
  metadata := []
  created := .utc 0
  creator := ""

/-- Storing a valid rule and deleting it again. -/
def savedAndDeleted : List Call :=
  [⟨true, 0, .save [appRule "shop" "example.com"] false⟩, ⟨true, 1, .deleteLabelled []⟩]

/-- A rule to a host inside the cluster keeps the valid rule in front of it from being stored. -/
theorem service_keeps_valid_internalHost :
    (∃ found, (run Store.fresh savedAndDeleted).database.allRules true = .ok found ∧
      ∀ rule ∈ found, rule.source.isValid = true) ∧
    (appRule "shop" "db.cluster.local").isValid = false ∧
    ((run Store.fresh savedAndDeleted).database.saveValid true 2 1
      [appRule "shop" "example.org", appRule "shop" "db.cluster.local"] false).rules =
        [appRule "shop" "example.org", appRule "shop" "db.cluster.local"] := by
  have hcalls : ∀ c ∈ savedAndDeleted, c.IsProper := by decide
  have hinvalid : (appRule "shop" "db.cluster.local").isValid = false := by decide +kernel
  obtain ⟨⟨found, hfound, hvalid⟩, hsave⟩ := service_keeps_valid Store.isEmpty_fresh hcalls
  obtain ⟨_, _, hrules, _⟩ := (hsave true 2 1
    [appRule "shop" "example.org", appRule "shop" "db.cluster.local"] false).1
    ⟨_, .tail _ (.head _), hinvalid⟩
  exact ⟨⟨found, hfound, fun rule hrule => (hvalid rule hrule).2.1⟩, hinvalid, hrules⟩

end Rule.Service

end AccessRules
