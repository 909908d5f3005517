import AccessRules.Proofs.Rule.Storing

/-!
# Identifiers and names stand once

**Program** — the store of rules under batches of rules to be stored, with and without replacing,
and under removals, over an open connection or a closed one (`Store.run`).

**Spec** — no two rules of the table have an identifier or a name in common; a batch fails exactly
if adding its rules one at a time comes to one that is refused, and a batch that fails changes
nothing; replacing a rule that has both its identifier and its name in one row always succeeds
(`store_unique`).

**Crux** — the two columns are not independent: replacing goes by identifier and may take a name
away from one row and give it to another.  The invariant `NamesOnce` is therefore about names of
rows with *different* identifiers, and it is kept rule by rule, not batch by batch.
-/

namespace AccessRules.Rule

open Calendar Storage

namespace Table

/-- No name belongs to rows with different identifiers. -/
def NamesOnce (t : Table) : Prop :=
  ∀ r ∈ t, ∀ r' ∈ t, ∀ name, r.name = some name → r'.name = some name → r.id = r'.id

theorem namesOnce_nil : NamesOnce [] := by
  intro r hr
  cases hr

/-- The name of a rule that is not refused is under its identifier, if it is there at all. -/
theorem id_of_not_refuses {t : Table} {replacing : Bool} {rule : Rule}
    (h : ¬ t.Refuses replacing rule) {r : Row} (hr : r ∈ t) {name : String}
    (hname : r.name = some name) (hrule : (Row.ofRule rule).name = some name) : r.id = rule.id := by
  have hne : rule.name ≠ "" := by
    intro hempty
    rw [name_ofRule_of_empty hempty] at hrule
    cases hrule
  rw [name_ofRule_of_ne hne] at hrule
  -- otherwise the name would be taken
  by_contra hid
  exact h (.inr ⟨hne, r, hr, hname.trans hrule.symm, hid⟩)

/-- **A rule that is not refused leaves names distinct.** -/
theorem NamesOnce.put {t : Table} (h : t.NamesOnce) {replacing : Bool} {rule : Rule}
    (hno : ¬ t.Refuses replacing rule) : (t.put (Row.ofRule rule)).NamesOnce := by
  intro r hr r' hr' name hname hname'
  rcases mem_put.mp hr with ⟨hr, _⟩ | rfl
  · rcases mem_put.mp hr' with ⟨hr', _⟩ | rfl
    · exact h r hr r' hr' name hname hname'
    · exact id_of_not_refuses hno hr hname hname'
  · rcases mem_put.mp hr' with ⟨hr', _⟩ | rfl
    · exact (id_of_not_refuses hno hr' hname' hname).symm
    · rfl

theorem NamesOnce.putAll {t : Table} (h : t.NamesOnce) {replacing : Bool} {rules : List Rule}
    (hno : ¬ t.Stops replacing rules) : (t.putAll (rules.map Row.ofRule)).NamesOnce :=
  putAll_keeps (fun _ _ ht hno => ht.put hno) h hno

theorem NamesOnce.insertAll {t t' : Table} (h : t.NamesOnce) {replacing : Bool}
    {rules : List Rule} (ht : t.insertAll replacing (rules.map Row.ofRule) = .ok t') :
    t'.NamesOnce := by
  by_cases hstops : t.Stops replacing rules
  · obtain ⟨c, hc⟩ := hstops.insertAll
    rw [hc] at ht
    cases ht
  · rw [insertAll_of_not_stops hstops] at ht
    cases ht
    exact h.putAll hstops

/-- Marks leave names and identifiers. -/
theorem NamesOnce.remove {t t' : Table} (h : t.NamesOnce) {d : Removal} {n : Nat}
    (ht : t.remove d = .ok (n, t')) : t'.NamesOnce := by
  have hrow : ∀ r' ∈ t', ∃ r ∈ t, r.id = r'.id ∧ r.name = r'.name := by
    intro r' hr'
    obtain ⟨r, hr, rfl | rfl⟩ := mem_of_remove ht hr'
    · exact ⟨r', hr, rfl, rfl⟩
    · exact ⟨r, hr, rfl, rfl⟩
  intro r hr r' hr' name hname hname'
  obtain ⟨m, hm, hid, hmname⟩ := hrow r hr
  obtain ⟨m', hm', hid', hmname'⟩ := hrow r' hr'
  rw [← hid, ← hid']
  exact h m hm m' hm' name (hmname.trans hname) (hmname'.trans hname')

/-- Where names are distinct, a rule that has its identifier and its name in one row replaces that
row. -/
theorem NamesOnce.insert_own {t : Table} (h : t.NamesOnce) {rule : Rule} {r : Row} (hr : r ∈ t)
    (hid : r.id = rule.id) (hname : r.name = (Row.ofRule rule).name) :
    t.insert true (Row.ofRule rule) = .ok (t.replace (Row.ofRule rule)) := by
  have hhas : t.hasId (Row.ofRule rule).id = true := hasId_iff.mpr ⟨r, hr, hid⟩
  have hput : t.put (Row.ofRule rule) = t.replace (Row.ofRule rule) := if_pos hhas
  rcases t.insert_cases true rule with ⟨hno | ⟨hne, r', hr', hname', hid'⟩, _⟩ | ⟨_, hinsert⟩
  · cases hno.1
  · rw [name_ofRule_of_ne hne] at hname
    exact absurd ((h r' hr' r hr _ hname' hname).trans hid) hid'
  · rw [hinsert, hput]

end Table

/-! ## The store -/

/-- Identifiers and names are distinct after every run. -/
theorem unique_run {s : Store} (hs : s.IsEmpty) (calls : List Call) :
    (s.run calls).database.version.isSome = true ∧
      (s.run calls).database.rules.ids.Nodup ∧ (s.run calls).database.rules.NamesOnce := by
  refine Store.run_keeps (K := fun _ => True) (P := fun t => t.ids.Nodup ∧ t.NamesOnce)
    ⟨List.nodup_nil, Table.namesOnce_nil⟩ ?_ ?_ hs fun _ _ _ _ _ _ => trivial
  · intro t rules replacing ⟨hids, hnames⟩ _ hno
    exact ⟨Table.nodup_insertAll (Table.insertAll_of_not_stops hno) hids, hnames.putAll hno⟩
  · intro t t' d n ⟨hids, hnames⟩ ht
    exact ⟨by rwa [Table.ids_remove ht], hnames.remove ht⟩

/-- **Identifiers and names stand once, and batches are stored as a whole or not at all.**  After
any run from an empty store: identifiers are distinct, and no name belongs to two rows.  A batch to
be saved gets the moment of storing and the identifiers it lacks, and is otherwise as it was.  Saving
it then fails exactly if some rule is refused by the table that the rules before it leave; that
is the only way it can fail, and whatever was put before is taken back.  Over a closed connection it
changes nothing either.  With replacing, a rule that finds its identifier and its name in one row
replaces that row, wherever it stands in the batch. -/
theorem store_unique {s : Store} (hs : s.IsEmpty) (calls : List Call) :
    let d := (s.run calls).database
    d.rules.ids.Nodup ∧
    (∀ r ∈ d.rules, ∀ r' ∈ d.rules, ∀ name, r.name = some name → r'.name = some name → r = r') ∧
    ∀ (now : Instant) (ids : Supply) (rules : List Rule) (replacing : Bool),
      let batch := (d.save true now ids rules replacing).rules
      IsAssigned now ids rules batch ∧
      ((∃ c : Conflict, (d.save true now ids rules replacing).answer = .error c.failure) ↔
        ∃ before rule after t, batch = before ++ rule :: after ∧
          d.rules.insertAll replacing (before.map Row.ofRule) = .ok t ∧
          ((replacing = false ∧ ∃ r ∈ t, r.id = rule.id) ∨
            (rule.name ≠ "" ∧ ∃ r ∈ t, r.name = some rule.name ∧ r.id ≠ rule.id))) ∧
      (∀ f, (d.save true now ids rules replacing).answer = .error f →
        ∃ c : Conflict, f = c.failure) ∧
      (∀ connected f, (d.save connected now ids rules replacing).answer = .error f →
        (d.save connected now ids rules replacing).database = d) ∧
      (∀ before rule after t r, replacing = true → batch = before ++ rule :: after →
        d.rules.insertAll replacing (before.map Row.ofRule) = .ok t → r ∈ t → r.id = rule.id →
        r.name = (Row.ofRule rule).name →
        t.insert replacing (Row.ofRule rule) = .ok (t.replace (Row.ofRule rule))) := by
  obtain ⟨hversion, hids, hnames⟩ := unique_run hs calls
  refine ⟨hids, fun r hr r' hr' name hname hname' => ?_, fun now ids rules replacing => ?_⟩
  · exact List.inj_on_of_nodup_map hids hr hr' (hnames r hr r' hr' name hname hname')
  dsimp only
  rw [Database.save_rules]
  have hcases := Database.save_cases hversion now ids rules replacing
  refine ⟨isAssigned_assign now rules ids, ⟨fun hfails => ?_, fun hstops => ?_⟩, fun f hf => ?_,
    fun connected f hf => Database.save_of_error hf, ?_⟩
  · rcases hcases with ⟨hstops, _⟩ | ⟨_, hanswer, _⟩
    · exact hstops
    · obtain ⟨c, hc⟩ := hfails
      rw [hanswer] at hc
      cases hc
  · rcases hcases with ⟨_, hfails, _⟩ | ⟨hno, _⟩
    · exact hfails
    · exact absurd hstops hno
  · rcases hcases with ⟨_, ⟨c, hc⟩, _⟩ | ⟨_, hanswer, _⟩
    · rw [hc] at hf
      exact ⟨c, (Except.error.inj hf).symm⟩
    · rw [hanswer] at hf
      cases hf
  · -- names are still distinct at that moment, as the rules before were stored
    rintro before rule after t r rfl _ hbefore hr hid hname
    exact (hnames.insertAll hbefore).insert_own hr hid hname

/-- A rule with an identifier and a name. -/
def namedRule (id name : String) : Rule := ⟨id, name, .empty, .empty, false, [], .utc 0, ""⟩

/-- The store with a rule whose name is taken from then on. -/
def storeOfOne : Store := Store.fresh.run [⟨true, 0, .save [namedRule "a" "name"] false⟩]

/-- A rule put before one whose name is taken is taken back. -/
theorem store_unique_taken :
    Store.fresh.IsEmpty ∧
      (∃ c : Conflict, (storeOfOne.database.save true 0 0
        [namedRule "b" "", namedRule "c" "name"] true).answer = .error c.failure) ∧
      (storeOfOne.database.save true 0 0
        [namedRule "b" "", namedRule "c" "name"] true).database = storeOfOne.database := by
  obtain ⟨_, _, hsave⟩ :=
    store_unique Store.isEmpty_fresh [⟨true, 0, .save [namedRule "a" "name"] false⟩]
  obtain ⟨_, hfails, _, hkept, _⟩ := hsave 0 0 [namedRule "b" "", namedRule "c" "name"] true
  have hconflict := hfails.mpr ⟨[namedRule "b" ""], namedRule "c" "name", [],
    storeOfOne.database.rules.put (Row.ofRule (namedRule "b" "")), rfl, rfl,
    .inr ⟨by decide, Row.ofRule (namedRule "a" "name"), .head _, rfl, by decide⟩⟩
  obtain ⟨c, hc⟩ := hconflict
  exact ⟨Store.isEmpty_fresh, ⟨c, hc⟩, hkept true _ hc⟩

end AccessRules.Rule
