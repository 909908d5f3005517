import Mathlib.Data.String.Basic
import AccessRules.Proofs.Rule.ReadBack
import AccessRules.Proofs.Rule.Storing

/-!
# The store of rules is a map

**Program** — `Database.save` stores a batch of rules, `Database.allRules` lists what is stored.

**Spec** — a batch that is stored acts on the list as it would on a map from identifiers to rules:
what was there under other identifiers is listed as before, and of each identifier of the batch the
last rule, just as it was handed back (`save_refines`).

**Crux** — what is listed is what the rows are read as, and in a store that callers can bring about
every row is the row of a rule that is read back (`Table.IsLegible`).  So the rows can be reasoned
about as if they were rules.
-/

namespace AccessRules

open Calendar Storage

namespace Rule

/-! ## Tables of rules -/

/-- A table whose rows are those of rules that are read back. -/
def Table.IsLegible (t : Table) : Prop :=
  ∀ row ∈ t, ∃ rule : Rule, rule.IsStorable ∧ row = Row.ofRule rule

namespace Table

theorem isLegible_nil : IsLegible [] := by
  intro row hrow
  cases hrow

theorem IsLegible.putAll {t : Table} (h : t.IsLegible) {rules : List Rule}
    (hrules : ∀ rule ∈ rules, rule.IsStorable) : (t.putAll (rules.map Row.ofRule)).IsLegible := by
  intro row hrow
  rcases mem_putAll.mp hrow with ⟨hrow, _⟩ | ⟨before, after, hsplit, _⟩
  · exact h row hrow
  · have hmem : row ∈ rules.map Row.ofRule := by
      rw [hsplit]
      simp
    obtain ⟨rule, hrule, rfl⟩ := List.mem_map.mp hmem
    exact ⟨rule, hrules rule hrule, rfl⟩

/-- A row that is marked is the row of the rule that is marked. -/
theorem IsLegible.remove {t t' : Table} (h : t.IsLegible) {d : Removal} {n : Nat}
    (ht : t.remove d = .ok (n, t')) : t'.IsLegible := by
  intro row' hrow'
  obtain ⟨row, hrow, hmark⟩ := mem_of_remove ht hrow'
  obtain ⟨rule, hrule, rfl⟩ := h row hrow
  rcases hmark with rfl | rfl
  · exact ⟨rule, hrule, rfl⟩
  · exact ⟨{ rule with removed := true }, ⟨hrule.labels, hrule.created⟩, rfl⟩

theorem IsLegible.rule {t : Table} (h : t.IsLegible) {row : Row} (hrow : row ∈ t) :
    ∃ rule, row.rule = .ok rule := by
  obtain ⟨rule, hrule, rfl⟩ := h row hrow
  exact ⟨rule, Row.rule_ofRule hrule⟩

/-- A row is that of the rule it is read as. -/
theorem IsLegible.eq_ofRule {t : Table} (h : t.IsLegible) {row : Row} (hrow : row ∈ t)
    {rule : Rule} (hread : row.rule = .ok rule) : row = Row.ofRule rule := by
  obtain ⟨stored, hstorable, rfl⟩ := h row hrow
  rw [Row.rule_ofRule hstorable] at hread
  rw [Except.ok.inj hread]

/-- Rows with distinct identifiers are sorted strictly. -/
theorem pairwise_sorted {t : Table} (h : t.ids.Nodup) :
    t.sorted.Pairwise fun a b => a.id < b.id := by
  have hle : t.sorted.Pairwise fun a b => decide (a.id ≤ b.id) = true := by
    apply List.pairwise_mergeSort
    · intro a b c hab hbc
      exact decide_eq_true ((of_decide_eq_true hab).trans (of_decide_eq_true hbc))
    · intro a b
      rcases le_total a.id b.id with h | h
      · simp [h]
      · simp [h]
  have hne : t.sorted.Pairwise fun a b => a.id ≠ b.id := by
    have hperm := (List.mergeSort_perm t fun a b => decide (a.id ≤ b.id)).map (·.id)
    exact List.pairwise_map.mp (hperm.nodup_iff.mpr h)
  exact (hle.and hne).imp fun hab => lt_of_le_of_ne (of_decide_eq_true hab.1) hab.2

theorem pairwise_of_rule {rows : List Row} {rules : List Rule}
    (h : List.Forall₂ (fun row rule => row.rule = .ok rule) rows rules)
    (hrows : rows.Pairwise fun a b => a.id < b.id) : rules.Pairwise fun a b => a.id < b.id := by
  have hids : rows.map (·.id) = rules.map (·.id) := by
    clear hrows
    induction h with
    | nil => rfl
    | cons hrow _ ih => rw [List.map_cons, List.map_cons, ih, (Row.rule_eq hrow).1]
  have hmap : (rules.map (·.id)).Pairwise (· < ·) := by
    rw [← hids]
    exact List.pairwise_map.mpr hrows
  exact List.pairwise_map.mp hmap

/-- **What is selected from a table**: the rules of the rows whose columns are as wanted, if they
have the wanted labels, in the order of their identifiers. -/
theorem IsLegible.select {t : Table} (h : t.IsLegible) (hids : t.ids.Nodup) (s : Selection) :
    ∃ found, t.select s = .ok found ∧ found.Pairwise (fun a b => a.id < b.id) ∧
      ∀ rule, rule ∈ found ↔
        (∃ row ∈ t, s.admitsRow row = true ∧ row.rule = .ok rule) ∧
          rule.metadata.hold s.metadata = true := by
  have hmem : ∀ row, row ∈ sorted (t.filter s.admitsRow) ↔ row ∈ t ∧ s.admitsRow row = true :=
    fun row => List.mem_mergeSort.trans List.mem_filter
  have hids' : ids (t.filter s.admitsRow) |>.Nodup := (List.filter_sublist.map _).nodup hids
  obtain ⟨rules, hrules⟩ :=
    exists_mapM_ok (f := Row.rule) fun row hrow => h.rule ((hmem row).mp hrow).1
  have hsorted := pairwise_of_rule (forall₂_of_mapM hrules) (pairwise_sorted hids')
  refine ⟨rules.filter fun r => r.metadata.hold s.metadata, ?_, hsorted.filter _, fun rule => ?_⟩
  · rw [Table.select, hrules]
    rfl
  rw [List.mem_filter]
  refine and_congr_left' ⟨fun hrule => ?_, ?_⟩
  · obtain ⟨row, hrow, hread⟩ := exists_of_mem_mapM hrules hrule
    exact ⟨row, ((hmem row).mp hrow).1, ((hmem row).mp hrow).2, hread⟩
  · rintro ⟨row, hrow, hadmitted, hread⟩
    obtain ⟨rule', hrule', hread'⟩ := exists_of_mapM_mem hrules ((hmem row).mpr ⟨hrow, hadmitted⟩)
    rw [hread] at hread'
    obtain rfl := Except.ok.inj hread'
    exact hrule'

/-- **What a table is listed as**: the rules of its rows, in the order of their identifiers. -/
theorem IsLegible.select_all {t : Table} (h : t.IsLegible) (hids : t.ids.Nodup) :
    ∃ found, t.select .all = .ok found ∧ found.Pairwise (fun a b => a.id < b.id) ∧
      ∀ rule, rule ∈ found ↔ ∃ row ∈ t, row.rule = .ok rule := by
  have hrow : ∀ row, Selection.all.admitsRow row = true := fun _ => rfl
  have hlabels : ∀ rule : Rule, rule.metadata.hold Selection.all.metadata = true := fun _ => rfl
  simpa [hrow, hlabels] using h.select hids .all

end Table

/-! ## The store -/

/-- Rules that get their identifiers and the moment of storing can be stored. -/
theorem isStorable_assign {now : Instant} (hnow : inCalendar now = true) {rules : List Rule}
    (h : ∀ rule ∈ rules, (rule.metadata.map Prod.fst).Nodup) (ids : Supply) :
    ∀ rule ∈ (assign now rules ids).1, rule.IsStorable := by
  intro stored hstored
  obtain ⟨rule, hrule, _, _, rfl⟩ := (isAssigned_assign now rules ids).exists_of_mem hstored
  exact ⟨h rule hrule, now, hnow, rfl⟩

/-- Every store that callers bring about can be listed. -/
theorem isLegible_run {s : Store} (hs : s.IsEmpty) {calls : List Call}
    (hcalls : ∀ c ∈ calls, c.IsProper) :
    (s.run calls).database.version.isSome = true ∧
      (s.run calls).database.rules.ids.Nodup ∧ (s.run calls).database.rules.IsLegible := by
  refine Store.run_keeps (K := fun rules => ∀ rule ∈ rules, rule.IsStorable)
    (P := fun t => t.ids.Nodup ∧ t.IsLegible) ⟨List.nodup_nil, Table.isLegible_nil⟩ ?_ ?_ hs ?_
  · intro t rules replacing ⟨hids, hlegible⟩ hrules hno
    exact ⟨Table.nodup_insertAll (Table.insertAll_of_not_stops hno) hids, hlegible.putAll hrules⟩
  · intro t t' d n ⟨hids, hlegible⟩ ht
    exact ⟨by rwa [Table.ids_remove ht], hlegible.remove ht⟩
  · intro c hc rules replacing hrequest ids
    have hlabels := (hcalls c hc).labels
    rw [hrequest] at hlabels
    exact isStorable_assign (hcalls c hc).inCalendar hlabels ids

/-- Over an open connection rules are selected as they are from their table. -/
theorem selectRules_eq {d : Database} (hversion : d.version.isSome = true) (s : Selection) :
    d.selectRules true s = d.rules.select s := by
  rw [Database.selectRules, Database.canRead_open hversion]
  rfl

theorem allRules_eq {d : Database} (hversion : d.version.isSome = true) :
    d.allRules true = d.rules.select .all := selectRules_eq hversion .all

/-- Rows have the identifiers of their rules. -/
theorem ids_ofRule (rules : List Rule) :
    (rules.map Row.ofRule).map (·.id) = rules.map (·.id) := by
  rw [List.map_map]
  rfl

/-- The last rules of a batch are read back from their rows. -/
theorem exists_row_iff {rules : List Rule} (h : ∀ rule ∈ rules, rule.IsStorable) {rule : Rule} :
    (∃ row before after, rules.map Row.ofRule = before ++ row :: after ∧
      row.id ∉ after.map (·.id) ∧ row.rule = .ok rule) ↔
    ∃ before after, rules = before ++ rule :: after ∧ rule.id ∉ after.map (·.id) := by
  constructor
  · rintro ⟨row, before, after, hsplit, hafter, hread⟩
    obtain ⟨before', rest, hrules, rfl, hrest⟩ := List.map_eq_append_iff.mp hsplit
    obtain ⟨rule', after', rfl, rfl, rfl⟩ := List.map_eq_cons_iff.mp hrest
    have hstorable := h rule' (by rw [hrules]; simp)
    rw [Row.rule_ofRule hstorable] at hread
    obtain rfl := Except.ok.inj hread
    rw [ids_ofRule] at hafter
    exact ⟨before', after', hrules, hafter⟩
  · rintro ⟨before, after, hrules, hafter⟩
    have hstorable := h rule (by rw [hrules]; simp)
    refine ⟨Row.ofRule rule, before.map Row.ofRule, after.map Row.ofRule, ?_, ?_,
      Row.rule_ofRule hstorable⟩
    · rw [hrules, List.map_append, List.map_cons]
    · rw [ids_ofRule]
      exact hafter

/-- **The store of rules is a map.**  In a store that callers bring about from an empty one, a batch
that is saved is handed back as it was given, but for new identifiers and the moment of storing; and
it changes what is listed, which is always listed in the strict order of identifiers, as it would
change a map: exactly those rules are listed that were listed before under identifiers not in the
batch, and of each identifier of the batch the last rule of it that was handed back. -/
theorem save_refines {s : Store} (hs : s.IsEmpty) {calls : List Call}
    (hcalls : ∀ c ∈ calls, c.IsProper) {now : Instant} (hnow : inCalendar now = true)
    {ids : Supply} {rules : List Rule} {replacing : Bool}
    (hlabels : ∀ rule ∈ rules, (rule.metadata.map Prod.fst).Nodup) {saved : List Rule}
    (hsaved : ((s.run calls).database.save true now ids rules replacing).answer = .ok saved) :
    IsAssigned now ids rules saved ∧
    ∃ old found, (s.run calls).database.allRules true = .ok old ∧
      ((s.run calls).database.save true now ids rules replacing).database.allRules true =
        .ok found ∧
      found.Pairwise (fun a b => a.id < b.id) ∧
      ∀ rule, rule ∈ found ↔ (rule ∈ old ∧ rule.id ∉ saved.map (·.id)) ∨
        ∃ before after, saved = before ++ rule :: after ∧ rule.id ∉ after.map (·.id) := by
  obtain ⟨hversion, hids, hlegible⟩ := isLegible_run hs hcalls
  generalize (s.run calls).database = d at hversion hids hlegible hsaved ⊢
  have hstorable := isStorable_assign hnow hlabels ids
  rcases Database.save_cases hversion now ids rules replacing with
    ⟨_, ⟨c, hfails⟩, _⟩ | ⟨hno, hanswer, hafter⟩
  · rw [hfails] at hsaved
    cases hsaved
  obtain rfl := Except.ok.inj (hanswer.symm.trans hsaved)
  refine ⟨isAssigned_assign now rules ids, ?_⟩
  generalize (assign now rules ids).1 = batch at hstorable hno hafter ⊢
  obtain ⟨old, hold, _, hmemold⟩ := hlegible.select_all hids
  have hids' := Table.nodup_insertAll (Table.insertAll_of_not_stops hno) hids
  obtain ⟨found, hfound, hsorted, hmem⟩ := (hlegible.putAll hstorable).select_all hids'
  have hlist : ∀ t, Database.allRules { d with rules := t } true = t.select .all := fun t =>
    allRules_eq hversion
  refine ⟨old, found, (hlist d.rules).trans hold, ?_, hsorted, fun rule => ?_⟩
  · rw [hafter, hlist, hfound]
  -- rules are listed for rows, so rows are what is compared
  rw [hmem, hmemold, ← exists_row_iff hstorable]
  constructor
  · rintro ⟨row, hrow, hread⟩
    rcases Table.mem_putAll.mp hrow with ⟨hrow, hid⟩ | ⟨before, after, hsplit, hlast⟩
    · refine .inl ⟨⟨row, hrow, hread⟩, ?_⟩
      rw [(Row.rule_eq hread).1, ← ids_ofRule]
      exact hid
    · exact .inr ⟨row, before, after, hsplit, hlast, hread⟩
  · rintro (⟨⟨row, hrow, hread⟩, hid⟩ | ⟨row, before, after, hsplit, hlast, hread⟩)
    · refine ⟨row, Table.mem_putAll.mpr (.inl ⟨hrow, ?_⟩), hread⟩
      rw [ids_ofRule, ← (Row.rule_eq hread).1]
      exact hid
    · exact ⟨row, Table.mem_putAll.mpr (.inr ⟨before, after, hsplit, hlast⟩), hread⟩

/-- A rule from a host, with a list of ports or without. -/
def hostRule (ports : Option (List Port)) : Rule where
  id := "rule"
  name := ""
  source := { Endpoint.empty with dns := some ⟨"host", ports, false⟩ }
  destination := .empty
  removed := false
  metadata := [("label", "value")]
  created := .utc 0
  creator := ""

/-- Storing the rule without a list of ports. -/
def hostCall : Call := ⟨true, 0, .save [hostRule none] false⟩

/-- A removed rule without an identifier. -/
def nightlyRule : Rule where
  id := ""
  name := "nightly.example.com"
  source := { Endpoint.empty with job := some ⟨"nightly"⟩ }
  destination := { Endpoint.empty with ip := some ⟨"10.0.0.0/8", some [⟨"tcp", 443⟩], true⟩ }
  removed := true
  metadata := [("team", "shop"), ("label", "")]
  created := .utc 7
  creator := "nobody"

/-- A batch of rules with an identifier and without one. -/
def mixedBatch : List Rule :=
  [nightlyRule, hostRule (some []), { nightlyRule with name := "", creator := "somebody" }]

/-- A rule without a list of ports is replaced by the one with an empty list, and the two rules
around it are listed under new identifiers, with all that they were handed over with. -/
theorem save_refines_mixedBatch :
    ∃ found, ((Store.fresh.run [hostCall]).database.save true 60 0 mixedBatch
        true).database.allRules true = .ok found ∧
      { nightlyRule with id := identifier 1, created := .utc 60 } ∈ found ∧
      { hostRule (some []) with created := .utc 60 } ∈ found ∧
      { nightlyRule with
        id := identifier 2, name := "", creator := "somebody", created := .utc 60 } ∈ found ∧
      hostRule none ∉ found := by
  have hcalls : ∀ c ∈ [hostCall], c.IsProper := by decide
  obtain ⟨saved, hsaved⟩ : ∃ saved,
      ((Store.fresh.run [hostCall]).database.save true 60 0 mixedBatch true).answer = .ok saved :=
    ⟨_, rfl⟩
  obtain ⟨hassigned, old, found, _, hfound, _, hmem⟩ :=
    save_refines Store.isEmpty_fresh hcalls (by decide) (by decide) hsaved
  -- what was handed back is known rule by rule
  obtain ⟨first, second, third, rfl⟩ := List.length_eq_three.mp hassigned.length
  obtain rfl := Option.some.inj (hassigned.supplied 0 _ rfl rfl)
  obtain rfl := Option.some.inj (hassigned.given 1 _ rfl (by decide))
  obtain rfl := Option.some.inj (hassigned.supplied 2 _ rfl rfl)
  refine ⟨found, hfound, (hmem _).mpr (.inr ⟨[], _, rfl, ?_⟩),
    (hmem _).mpr (.inr ⟨[_], _, rfl, ?_⟩), (hmem _).mpr (.inr ⟨[_, _], _, rfl, ?_⟩), ?_⟩
  · decide +kernel
  · decide +kernel
  · decide +kernel
  · rw [hmem]
    rintro (⟨_, hid⟩ | ⟨before, after, hsplit, _⟩)
    · exact hid (by decide +kernel)
    · have hlisted : hostRule none ∈ before ++ hostRule none :: after := by simp
      rw [← hsplit] at hlisted
      exact absurd hlisted (by decide +kernel)

end Rule

end AccessRules
