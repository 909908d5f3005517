import AccessRules.Proofs.Rule.Selecting

/-!
# What removing rules leaves

**Program** — `Database.removeRules` marks rules as removed, by their identifier, by labels or by
both; `Database.allRules` lists what is stored; and callers store and remove rules in any order
(`Store.run`).

**Spec** — in a store that callers bring about from an empty one a removal marks exactly the active
rules that have the identifier and the labels, counts them, and changes nothing else; if there are
none it says so, and nothing happens.  Hence as long as no rule is replaced, every rule that was
stored stays, as it was or marked, and one that is marked stays marked (`removes_exactly_wanted`).

**Crux** — rows are looked at one by one, and their labels are a text.  A table that callers bring
about is the list of the rows of some rules (`Table.IsLegible.exists_rules`), and what a removal does
to it is what marking does to those rules (`remove_map_ofRule`); the listing is a sort of them
(`select_map_ofRule`), and a mark does not change the order.
-/

namespace AccessRules

open Calendar Storage

namespace Rule

/-! ## What a removal does to rules -/

/-- A rule is to be removed: it is active, it has the identifier if one is given, and it has all
labels that are given. -/
structure Removal.Wants (w : Removal) (rule : Rule) : Prop where
  active : rule.removed = false
  id : w.id ≠ "" → rule.id = w.id
  labels : ∀ l ∈ w.metadata, rule.metadata.get? l.1 = some l.2

instance (w : Removal) (rule : Rule) : Decidable (w.Wants rule) :=
  decidable_of_iff (rule.removed = false ∧ (w.id ≠ "" → rule.id = w.id) ∧
      ∀ l ∈ w.metadata, rule.metadata.get? l.1 = some l.2)
    ⟨fun ⟨active, id, labels⟩ => ⟨active, id, labels⟩, fun h => ⟨h.active, h.id, h.labels⟩⟩

/-- A rule after a removal. -/
def Removal.after (w : Removal) (rule : Rule) : Rule :=
  if w.Wants rule then { rule with removed := true } else rule

theorem Removal.id_after (w : Removal) (rule : Rule) : (w.after rule).id = rule.id := by
  rw [after]
  split <;> rfl

theorem Removal.isStorable_after (w : Removal) {rule : Rule} (h : rule.IsStorable) :
    (w.after rule).IsStorable := by
  rw [after]
  split
  · exact ⟨h.labels, h.created⟩
  · exact h

/-- Whether a stored rule is to be removed is known, as its labels can be read. -/
theorem Removal.admits_ofRule (w : Removal) {rule : Rule} (h : rule.IsStorable) :
    w.admits (Row.ofRule rule) = .ok (decide (w.Wants rule)) := by
  have hlabels : Row.readLabels (Row.ofRule rule).metadata = .ok rule.metadata :=
    Row.readLabels_render h.labels
  have hwants : w.Wants rule ↔ (rule.removed || !(w.id.isEmpty || rule.id == w.id)) = false ∧
      rule.metadata.hold w.metadata = true := by
    rw [Bool.or_eq_false_iff, Bool.not_eq_false', isEmpty_or_iff, beq_iff_eq, Labels.hold_iff,
      and_assoc]
    exact ⟨fun h => ⟨h.active, h.id, h.labels⟩, fun ⟨active, id, labels⟩ => ⟨active, id, labels⟩⟩
  have hdecide : decide (w.Wants rule) =
      (!(rule.removed || !(w.id.isEmpty || rule.id == w.id)) && rule.metadata.hold w.metadata) := by
    rw [Bool.eq_iff_iff, decide_eq_true_iff, hwants, Bool.and_eq_true, Bool.not_eq_true']
  rw [hdecide, Removal.admits, hlabels]
  show (if (rule.removed || !(w.id.isEmpty || rule.id == w.id)) = true then _ else _) = _
  cases rule.removed || !(w.id.isEmpty || rule.id == w.id) <;> rfl

theorem Removal.mark_ofRule (w : Removal) {rule : Rule} (h : rule.IsStorable) :
    w.mark (Row.ofRule rule) = .ok (Row.ofRule (w.after rule)) := by
  rw [Removal.mark, w.admits_ofRule h, Removal.after]
  by_cases hwants : w.Wants rule
  · rw [decide_eq_true hwants, if_pos hwants]
    rfl
  · rw [decide_eq_false hwants, if_neg hwants]
    rfl

namespace Table

/-- A legible table is the list of the rows of some rules. -/
theorem IsLegible.exists_rules {t : Table} (h : t.IsLegible) :
    ∃ rules : List Rule, (∀ rule ∈ rules, rule.IsStorable) ∧ t = rules.map Row.ofRule := by
  induction t with
  | nil => exact ⟨[], by simp, rfl⟩
  | cons row t ih =>
    obtain ⟨rule, hrule, rfl⟩ := h row (List.mem_cons_self ..)
    obtain ⟨rules, hrules, rfl⟩ := ih fun row hrow => h row (List.mem_cons_of_mem _ hrow)
    exact ⟨rule :: rules, List.forall_mem_cons.mpr ⟨hrule, hrules⟩, rfl⟩

variable {rules : List Rule}

/-- **A removal marks the wanted rules and counts them.** -/
theorem remove_map_ofRule (h : ∀ rule ∈ rules, rule.IsStorable) (w : Removal) :
    remove (rules.map Row.ofRule) w =
      .ok (rules.countP fun rule => w.Wants rule, (rules.map w.after).map Row.ofRule) := by
  have hmarks : (rules.map Row.ofRule).mapM w.admits =
      .ok (rules.map fun rule => decide (w.Wants rule)) := by
    rw [List.mapM_map]
    exact mapM_eq_ok_map fun rule hrule => w.admits_ofRule (h rule hrule)
  have hrows : (rules.map Row.ofRule).mapM w.mark = .ok ((rules.map w.after).map Row.ofRule) := by
    rw [List.mapM_map, List.map_map]
    exact mapM_eq_ok_map fun rule hrule => w.mark_ofRule (h rule hrule)
  have hcount : (rules.map fun rule => decide (w.Wants rule)).count true =
      rules.countP fun rule => w.Wants rule := by
    rw [List.count, List.countP_map]
    refine List.countP_congr fun rule _ => ?_
    simp
  rw [remove, hmarks, hrows]
  show Except.ok ((rules.map fun rule => decide (w.Wants rule)).count true, _) = _
  rw [hcount]

/-- Rules in the order of their identifiers. -/
def inOrder (rules : List Rule) : List Rule := rules.mergeSort fun a b => a.id ≤ b.id

/-- **What is listed of rows of rules** are those rules, in the order of their identifiers. -/
theorem select_map_ofRule (h : ∀ rule ∈ rules, rule.IsStorable) :
    select (rules.map Row.ofRule) .all = .ok (inOrder rules) := by
  have hall : (rules.map Row.ofRule).filter Selection.all.admitsRow = rules.map Row.ofRule :=
    List.filter_eq_self.mpr fun _ _ => rfl
  have hsorted : sorted (rules.map Row.ofRule) = (inOrder rules).map Row.ofRule := by
    refine (List.map_mergeSort ?_).symm
    intro a _ b _
    rfl
  have hread : ((inOrder rules).map Row.ofRule).mapM Row.rule = .ok (inOrder rules) := by
    rw [List.mapM_map]
    refine (mapM_eq_ok_map fun rule hrule => Row.rule_ofRule (h rule ?_)).trans (by rw [List.map_id'])
    exact List.mem_mergeSort.mp hrule
  have hlabels : (inOrder rules).filter (fun r => r.metadata.hold Selection.all.metadata) =
      inOrder rules := List.filter_eq_self.mpr fun _ _ => rfl
  rw [select, hall, hsorted, hread]
  show Except.ok ((inOrder rules).filter fun r => r.metadata.hold Selection.all.metadata) = _
  rw [hlabels]

/-- A removal leaves the order of the rules. -/
theorem inOrder_map_after (w : Removal) (rules : List Rule) :
    inOrder (rules.map w.after) = (inOrder rules).map w.after :=
  (List.map_mergeSort fun a _ b _ => by rw [w.id_after, w.id_after]).symm

/-! ## Rows that stay -/

/-- A row stays: as it was, or marked as removed. -/
def Lasts (t t' : Table) : Prop := ∀ r ∈ t, r ∈ t' ∨ { r with removed := true } ∈ t'

theorem Lasts.refl (t : Table) : t.Lasts t := fun _ hr => .inl hr

theorem Lasts.trans {a b c : Table} (hab : a.Lasts b) (hbc : b.Lasts c) : a.Lasts c := by
  intro r hr
  rcases hab r hr with hr | hr
  · exact hbc r hr
  · -- marking it once more is no change
    exact .inr (or_self_iff.mp (hbc _ hr))

/-- A batch that replaces nothing only adds rows. -/
theorem lasts_putAll {t : Table} {rules : List Rule} (h : ¬ t.Stops false rules) :
    t.Lasts (t.putAll (rules.map Row.ofRule)) := by
  refine putAll_keeps (P := t.Lasts) (fun t' rule ht hno => ht.trans fun r hr => ?_) (.refl t) h
  have hid : r.id ≠ rule.id := fun hid => hno (.inl ⟨rfl, r, hr, hid⟩)
  exact .inl (mem_put.mpr (.inl ⟨hr, hid⟩))

/-- A removal only changes marks. -/
theorem lasts_remove {t t' : Table} {w : Removal} {n : Nat} (h : t.remove w = .ok (n, t')) :
    t.Lasts t' := by
  rw [remove] at h
  obtain ⟨marks, _, h⟩ := ok_of_bind h
  obtain ⟨rows, hrows, h⟩ := ok_of_bind h
  cases h
  intro r hr
  obtain ⟨r', hr', hmark⟩ := exists_of_mapM_mem hrows hr
  rcases mem_of_mark hmark with rfl | rfl
  · exact .inl hr'
  · exact .inr hr'

end Table

/-- A call that does not replace rules. -/
def Call.ReplacesNothing (c : Call) : Prop := ∀ rules, c.request ≠ .save rules true

/-- A call that replaces nothing lets every row stay. -/
theorem Store.step_lasts {s : Store} (hversion : s.database.version.isSome = true) {c : Call}
    (hc : c.ReplacesNothing) : s.database.rules.Lasts (s.step c).database.rules := by
  obtain ⟨_, hchange⟩ := step_change hversion c
  generalize (s.step c).database.rules = t' at hchange ⊢
  cases hchange with
  | kept => exact .refl _
  | saved rules replacing hrequest hstored =>
    cases replacing with
    | true => exact absurd hrequest (hc rules)
    | false => exact Table.lasts_putAll hstored
  | removed w n _ ht => exact Table.lasts_remove ht

/-- **Calls that replace nothing let every row stay.** -/
theorem Store.run_lasts {s : Store} (hversion : s.database.version.isSome = true)
    {calls : List Call} (hcalls : ∀ c ∈ calls, c.ReplacesNothing) :
    s.database.rules.Lasts (s.run calls).database.rules := by
  induction calls generalizing s with
  | nil => exact .refl _
  | cons c calls ih =>
    obtain ⟨hc, hcalls⟩ := List.forall_mem_cons.mp hcalls
    have hsame := (step_change hversion c).1
    exact (step_lasts hversion hc).trans (ih (by rw [hsame, hversion]) hcalls)

end Rule

/-- Over an open connection the wanted rules are marked, unless there are none. -/
theorem Storage.Database.removeRules_eq {d : Database} (hversion : d.version.isSome = true)
    {rules : List Rule} (hrules : ∀ rule ∈ rules, rule.IsStorable)
    (htable : d.rules = rules.map Rule.Row.ofRule) (w : Rule.Removal) :
    d.removeRules true w =
      if rules.countP (fun rule => w.Wants rule) = 0 then
        .error (.fault (.of (.ruleNotFound "delete_rules" w.id)))
      else .ok (rules.countP fun rule => w.Wants rule,
        { d with rules := (rules.map w.after).map Rule.Row.ofRule }) := by
  rw [Database.removeRules, Database.canWrite_open hversion, htable,
    Rule.Table.remove_map_ofRule hrules]
  rfl

namespace Rule

/-! ## The store after a removal -/

namespace Store

/-- **A removal removes what is wanted and nothing else** of the rules that are listed: it marks the
wanted rules, counts them and leaves everything else as it was; if there are none it says so, and
nothing happens. -/
structure RemovesWanted (s : Store) (w : Removal) (rules : List Rule) : Prop where
  found : (∃ rule ∈ rules, w.Wants rule) → ∃ d : Database,
    s.database.removeRules true w = .ok (rules.countP fun rule => w.Wants rule, d) ∧
      { d with rules := s.database.rules } = s.database ∧
      d.allRules true = .ok (rules.map w.after)
  missing : (∀ rule ∈ rules, ¬ w.Wants rule) →
    s.database.removeRules true w = .error (.fault (.of (.ruleNotFound "delete_rules" w.id))) ∧
      ∀ now, s.step ⟨true, now, .remove w⟩ = s

/-- Where all rows are read back, removals remove what is wanted. -/
theorem removesWanted {s : Store} (hversion : s.database.version.isSome = true)
    (hlegible : s.database.rules.IsLegible) :
    ∃ rules, s.database.allRules true = .ok rules ∧ ∀ w, s.RemovesWanted w rules := by
  obtain ⟨rules, hrules, htable⟩ := hlegible.exists_rules
  refine ⟨Table.inOrder rules, ?_, fun w => ?_⟩
  · rw [allRules_eq hversion, htable, Table.select_map_ofRule hrules]
  have hcount : (Table.inOrder rules).countP (fun rule => w.Wants rule) =
      rules.countP fun rule => w.Wants rule := (List.mergeSort_perm rules _).countP_eq _
  have hremove := Database.removeRules_eq hversion hrules htable w
  constructor
  · rintro ⟨rule, hrule, hwants⟩
    have hsome : rules.countP (fun rule => w.Wants rule) ≠ 0 := by
      rw [← hcount]
      exact (List.countP_pos_iff.mpr ⟨rule, hrule, decide_eq_true hwants⟩).ne'
    have hafter : ∀ rule ∈ rules.map w.after, rule.IsStorable :=
      List.forall_mem_map.mpr fun rule hrule => w.isStorable_after (hrules rule hrule)
    have hlist : Database.allRules
        { s.database with rules := (rules.map w.after).map Row.ofRule } true =
        Table.select ((rules.map w.after).map Row.ofRule) .all := allRules_eq hversion
    rw [Table.select_map_ofRule hafter, Table.inOrder_map_after] at hlist
    rw [if_neg hsome, ← hcount] at hremove
    exact ⟨_, hremove, rfl, hlist⟩
  · intro hnone
    have hzero : rules.countP (fun rule => w.Wants rule) = 0 := by
      rw [← hcount]
      exact List.countP_eq_zero.mpr fun rule hrule => by simpa using hnone rule hrule
    rw [if_pos hzero] at hremove
    refine ⟨hremove, fun now => ?_⟩
    simp only [step, hremove]

/-- Every rule that is listed is listed later on, as it was or marked as removed, and is the only one
with its identifier. -/
def Retains (s s' : Store) : Prop :=
  ∃ before after, s.database.allRules true = .ok before ∧ s'.database.allRules true = .ok after ∧
    ∀ rule ∈ before, ∃ rule', (rule' = rule ∨ rule' = { rule with removed := true }) ∧
      ∀ other, other ∈ after ∧ other.id = rule.id ↔ other = rule'

/-- Rules whose rows stay are retained. -/
theorem retains_of_lasts {s s' : Store} (hversion : s.database.version.isSome = true)
    (hids : s.database.rules.ids.Nodup) (hlegible : s.database.rules.IsLegible)
    (hversion' : s'.database.version.isSome = true) (hids' : s'.database.rules.ids.Nodup)
    (hlegible' : s'.database.rules.IsLegible)
    (hlasts : s.database.rules.Lasts s'.database.rules) : s.Retains s' := by
  obtain ⟨before, hbefore, _, hmem⟩ := hlegible.select_all hids
  obtain ⟨after, hafter, _, hmem'⟩ := hlegible'.select_all hids'
  refine ⟨before, after, (allRules_eq hversion).trans hbefore, (allRules_eq hversion').trans hafter,
    fun rule hrule => ?_⟩
  obtain ⟨row, hrow, hread⟩ := (hmem rule).mp hrule
  obtain ⟨rule, hstorable, rfl⟩ := hlegible row hrow
  rw [Row.rule_ofRule hstorable] at hread
  obtain rfl := Except.ok.inj hread
  -- the row that stayed is that of the rule itself or of the marked rule
  obtain ⟨rule', hrule', hmark, hstorable'⟩ : ∃ rule' : Rule,
      Row.ofRule rule' ∈ s'.database.rules ∧
        (rule' = rule ∨ rule' = { rule with removed := true }) ∧ rule'.IsStorable := by
    rcases hlasts _ hrow with hstayed | hstayed
    · exact ⟨rule, hstayed, .inl rfl, hstorable⟩
    · exact ⟨{ rule with removed := true }, hstayed, .inr rfl, hstorable.labels, hstorable.created⟩
  have hid : rule'.id = rule.id := by rcases hmark with rfl | rfl <;> rfl
  refine ⟨rule', hmark, fun other => ⟨?_, ?_⟩⟩
  · rintro ⟨hother, hsame⟩
    obtain ⟨row', hrow', hread'⟩ := (hmem' other).mp hother
    obtain rfl := hlegible'.eq_ofRule hrow' hread'
    have heq := List.inj_on_of_nodup_map hids' hrow' hrule' (hsame.trans hid.symm)
    rw [heq, Row.rule_ofRule hstorable'] at hread'
    exact (Except.ok.inj hread').symm
  · rintro rfl
    exact ⟨(hmem' other).mpr ⟨_, hrule', Row.rule_ofRule hstorable'⟩, hid⟩

end Store

/-- **A removal is exact, and nothing else makes rules disappear.**  In a store that callers bring
about from an empty one all rules can be listed.  A removal marks exactly those of them that are
wanted, counts them, and changes nothing else; if none is wanted it says that there is no such rule,
and the store stays as it is.  Whatever is called afterwards without replacing rules, every rule
stays, unchanged or marked, so one that is marked stays so. -/
theorem removes_exactly_wanted {s : Store} (hs : s.IsEmpty) {calls : List Call}
    (hcalls : ∀ c ∈ calls, c.IsProper) :
    (∃ rules, (s.run calls).database.allRules true = .ok rules ∧
      ∀ w, (s.run calls).RemovesWanted w rules) ∧
    ∀ more : List Call, (∀ c ∈ more, c.IsProper ∧ c.ReplacesNothing) →
      (s.run calls).Retains (s.run (calls ++ more)) := by
  obtain ⟨hversion, hids, hlegible⟩ := isLegible_run hs hcalls
  refine ⟨Store.removesWanted hversion hlegible, fun more hmore => ?_⟩
  have hall : ∀ c ∈ calls ++ more, c.IsProper := fun c hc =>
    (List.mem_append.mp hc).elim (hcalls c) fun hc => (hmore c hc).1
  obtain ⟨hversion', hids', hlegible'⟩ := isLegible_run hs hall
  refine Store.retains_of_lasts hversion hids hlegible hversion' hids' hlegible' ?_
  rw [Store.run_append]
  exact Store.run_lasts hversion fun c hc => (hmore c hc).2

/-- A rule with a label. -/
def labelledRule (id team : String) : Rule :=
  ⟨id, "", .empty, .empty, false, [("team", team)], .utc 0, ""⟩

/-- Storing a rule for each of two teams. -/
def savedTeams : List Call :=
  [⟨true, 0, .save [labelledRule "a" "red", labelledRule "b" "blue"] false⟩]

/-- Removing the rules of one team, and storing another rule. -/
def removedTeam : List Call :=
  [⟨true, 0, .remove ⟨"", [("team", "blue")]⟩⟩,
    ⟨true, 0, .save [labelledRule "c" "red"] false⟩]

/-- Of two rules one is removed by its label; both stay when another rule is stored. -/
theorem removes_exactly_wanted_teams :
    Store.fresh.IsEmpty ∧ (∀ c ∈ savedTeams, c.IsProper) ∧
      (∀ c ∈ removedTeam, c.IsProper ∧ c.ReplacesNothing) ∧
      (∃ d, (Store.fresh.run savedTeams).database.removeRules true ⟨"", [("team", "blue")]⟩ =
          .ok (1, d) ∧
        d.allRules true =
          .ok [labelledRule "a" "red", { labelledRule "b" "blue" with removed := true }]) ∧
      (Store.fresh.run savedTeams).Retains (Store.fresh.run (savedTeams ++ removedTeam)) := by
  have hcalls : ∀ c ∈ savedTeams, c.IsProper := by decide
  have hmore : ∀ c ∈ removedTeam, c.IsProper ∧ c.ReplacesNothing := by
    intro c hc
    rcases List.mem_cons.mp hc with rfl | hc
    · exact ⟨by decide, nofun⟩
    · rw [List.mem_singleton.mp hc]
      exact ⟨by decide, nofun⟩
  obtain ⟨⟨rules, hlist, hremoves⟩, hretains⟩ := removes_exactly_wanted Store.isEmpty_fresh hcalls
  have hrules : rules = [labelledRule "a" "red", labelledRule "b" "blue"] := by
    have hrows : (Store.fresh.run savedTeams).database.rules =
        [labelledRule "a" "red", labelledRule "b" "blue"].map Row.ofRule := rfl
    have hstorable : ∀ id team, (labelledRule id team).IsStorable :=
      fun id team => ⟨List.nodup_singleton _, 0, by decide, rfl⟩
    rw [allRules_eq rfl, hrows, Table.select_map_ofRule (by simp [hstorable])] at hlist
    rw [← Except.ok.inj hlist]
    exact List.mergeSort_of_pairwise (by decide)
  subst hrules
  obtain ⟨d, hd, _, hafter⟩ := (hremoves ⟨"", [("team", "blue")]⟩).found (by decide)
  exact ⟨Store.isEmpty_fresh, hcalls, hmore, ⟨d, hd, hafter⟩, hretains _ hmore⟩

end Rule

end AccessRules
