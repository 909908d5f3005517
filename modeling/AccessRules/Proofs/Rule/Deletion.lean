import AccessRules.Proofs.Rule.Removing

/-!
# Deleting one rule

**Program** — `Database.removeRule` is how the service deletes the rule with an identifier.  It asks
the store to remove the rules of a `Removal` that has this identifier and no labels.

**Spec** — deleting is meant to mark the active rule with the identifier and nothing else, and to
say so when there is no such rule (`Database.DeletesOnly`).  In a store that callers can bring about
it does exactly that for every identifier but the empty one (`deletes_only_iff`).

**Crux** — a removal takes an empty identifier for none at all.  No stored rule has it
(`ids_ne_empty_run`), so nothing should be deleted under it; but every active rule is wanted then
(`Row.isWanted`), and all of them are marked.
-/

namespace AccessRules

open Calendar Storage

namespace Rule

/-! ## Identifiers of stored rules -/

/-- Rules that are to be stored have identifiers: their own, or new ones. -/
theorem ids_ne_empty_assign (now : Instant) (rules : List Rule) (ids : Supply) :
    ∀ rule ∈ (assign now rules ids).1, rule.id ≠ "" := by
  intro stored hstored
  obtain ⟨_, _, id, hid, rfl⟩ := (isAssigned_assign now rules ids).exists_of_mem hstored
  exact hid

/-- No rule of a store that callers bring about has an empty identifier. -/
theorem ids_ne_empty_run {s : Store} (hs : s.IsEmpty) (calls : List Call) :
    ∀ r ∈ (s.run calls).database.rules, r.id ≠ "" := by
  refine (Store.run_keeps (P := fun t => ∀ r ∈ t, r.id ≠ "")
    (K := fun rules => ∀ rule ∈ rules, rule.id ≠ "") (fun r hr => by cases hr) ?_ ?_ hs
    fun c _ rules _ _ ids => ids_ne_empty_assign c.now rules ids).2
  · intro t rules replacing ht hrules _ r hr
    rcases Table.mem_putAll.mp hr with ⟨hr, _⟩ | ⟨before, after, hsplit, _⟩
    · exact ht r hr
    · have hmem : r ∈ rules.map Row.ofRule := by
        rw [hsplit]
        simp
      obtain ⟨rule, hrule, rfl⟩ := List.mem_map.mp hmem
      exact hrules rule hrule
  · intro t t' d n ht hremove r' hr'
    obtain ⟨r, hr, rfl | rfl⟩ := Table.mem_of_remove hremove hr'
    · exact ht r' hr
    · exact ht r hr

/-! ## What a removal without labels does -/

/-- A row that is removed with an identifier: it is active, and has the identifier unless that is
empty. -/
def Row.isWanted (id : String) (r : Row) : Bool := !r.removed && (id.isEmpty || r.id == id)

namespace Table

/-- The table with some rows marked as removed. -/
def marking (t : Table) (p : Row → Bool) : Table :=
  t.map fun r => if p r then { r with removed := true } else r

variable {t : Table}

/-- A rule is wanted by a removal without labels exactly if its row is. -/
theorem isWanted_ofRule (id : String) (rule : Rule) :
    (Row.ofRule rule).isWanted id = decide (Removal.Wants ⟨id, []⟩ rule) := by
  rw [Bool.eq_iff_iff, Row.isWanted, Bool.and_eq_true, Bool.not_eq_true', isEmpty_or_iff,
    beq_iff_eq, decide_eq_true_iff]
  exact ⟨fun ⟨hactive, hid⟩ => ⟨hactive, hid, nofun⟩, fun h => ⟨h.active, h.id⟩⟩

/-- The rows of rules are marked as the rules are by a removal without labels. -/
theorem marking_map_ofRule (id : String) (rules : List Rule) :
    marking (rules.map Row.ofRule) (Row.isWanted id) =
      (rules.map (Removal.after ⟨id, []⟩)).map Row.ofRule := by
  rw [marking, List.map_map, List.map_map]
  refine List.map_congr_left fun rule _ => ?_
  rw [Function.comp_apply, Function.comp_apply, isWanted_ofRule, Removal.after]
  by_cases hwants : Removal.Wants ⟨id, []⟩ rule
  · rw [if_pos (decide_eq_true hwants), if_pos hwants]
    rfl
  · rw [if_neg (by simpa using hwants), if_neg hwants]

/-- Rows that are removed already can be marked or not. -/
theorem marking_congr {p q : Row → Bool} (h : ∀ r ∈ t, r.removed = false → p r = q r) :
    t.marking p = t.marking q := by
  apply List.map_congr_left
  intro r hr
  cases hremoved : r.removed with
  | false => rw [h r hr hremoved]
  | true =>
    -- the mark of such a row is the one it has
    have hmark : { r with removed := true } = r := by rw [← hremoved]
    rw [hmark, ite_self, ite_self]

/-- Where identifiers stand once, one row at most is wanted under an identifier. -/
theorem countP_isWanted (hids : t.ids.Nodup) {id : String} (hid : id ≠ "") {r : Row} (hr : r ∈ t)
    (hrid : r.id = id) (hactive : r.removed = false) : t.countP (Row.isWanted id) = 1 := by
  have hsome : 0 < t.countP (Row.isWanted id) := by
    refine List.countP_pos_iff.mpr ⟨r, hr, ?_⟩
    rw [Row.isWanted, hactive, hrid]
    simp
  have hle : t.countP (Row.isWanted id) ≤ t.ids.count id := by
    rw [ids, List.count, List.countP_map]
    refine List.countP_mono_left fun r' _ hwanted => ?_
    simpa [Row.isWanted, hid] using (Bool.and_eq_true_iff.mp hwanted).2
  have hone : t.ids.count id ≤ 1 := List.nodup_iff_count_le_one.mp hids id
  omega

end Table

end Rule

namespace Storage.Database

open Rule

variable {d : Database}

/-- Over an open connection the wanted rows are marked, unless there are none. -/
theorem removeRule_eq (hversion : d.version.isSome = true) (hlegible : d.rules.IsLegible)
    (id : String) :
    d.removeRule true id =
      if d.rules.countP (Row.isWanted id) = 0 then
        .error (.fault (.of (.ruleNotFound "delete_rules" id)))
      else .ok (d.rules.countP (Row.isWanted id),
        { d with rules := d.rules.marking (Row.isWanted id) }) := by
  obtain ⟨rules, hrules, htable⟩ := hlegible.exists_rules
  have hcount : d.rules.countP (Row.isWanted id) =
      rules.countP fun rule => Removal.Wants ⟨id, []⟩ rule := by
    rw [htable, List.countP_map]
    exact List.countP_congr fun rule _ => by simp [Table.isWanted_ofRule]
  rw [removeRule, removeRules_eq hversion hrules htable, hcount, htable, Table.marking_map_ofRule]

/-- **Deleting one rule deletes only that rule**: the active rule with the identifier is marked as
removed and all else is left as it was; without such a rule that is said, and nothing happens. -/
structure DeletesOnly (d : Database) (id : String) : Prop where
  found : (∃ r ∈ d.rules, r.id = id ∧ r.removed = false) →
    d.removeRule true id = .ok (1, { d with rules := d.rules.marking fun r => r.id == id })
  missing : (¬ ∃ r ∈ d.rules, r.id = id ∧ r.removed = false) →
    d.removeRule true id = .error (.fault (.of (.ruleNotFound "delete_rules" id)))

/-- A deletion under an identifier that is not empty is of one rule at most. -/
theorem deletesOnly_of_ne (hversion : d.version.isSome = true) (hlegible : d.rules.IsLegible)
    (hids : d.rules.ids.Nodup) {id : String} (hid : id ≠ "") : d.DeletesOnly id where
  found := by
    rintro ⟨r, hr, hrid, hactive⟩
    rw [removeRule_eq hversion hlegible, Table.countP_isWanted hids hid hr hrid hactive]
    have hmarking : d.rules.marking (Row.isWanted id) = d.rules.marking fun r => r.id == id := by
      refine Table.marking_congr fun r' _ hactive' => ?_
      simp [Row.isWanted, hactive', hid]
    rw [hmarking]
    rfl
  missing := by
    intro hnone
    rw [removeRule_eq hversion hlegible, if_pos]
    refine List.countP_eq_zero.mpr fun r hr hwanted => hnone ⟨r, hr, ?_⟩
    simpa [Row.isWanted, hid, and_comm] using hwanted

/-- Under the empty identifier every active rule is deleted. -/
theorem removeRule_empty (hversion : d.version.isSome = true) (hlegible : d.rules.IsLegible) :
    d.removeRule true "" =
      if ∀ r ∈ d.rules, r.removed = true then
        .error (.fault (.of (.ruleNotFound "delete_rules" "")))
      else
        .ok (d.rules.countP (!·.removed), { d with rules := d.rules.marking fun _ => true }) := by
  have hwanted : Row.isWanted "" = fun r => !r.removed := by
    funext r
    simp [Row.isWanted]
  have hmarking : d.rules.marking (!·.removed) = d.rules.marking fun _ => true :=
    Table.marking_congr fun r _ hactive => by simp [hactive]
  rw [removeRule_eq hversion hlegible, hwanted, hmarking]
  by_cases hall : ∀ r ∈ d.rules, r.removed = true
  · have hzero : d.rules.countP (!·.removed) = 0 :=
      List.countP_eq_zero.mpr fun r hr => by simp [hall r hr]
    rw [if_pos hzero, if_pos hall]
  · have hsome : d.rules.countP (!·.removed) ≠ 0 := fun hzero =>
      hall fun r hr => by simpa using List.countP_eq_zero.mp hzero r hr
    rw [if_neg hsome, if_neg hall]

end Storage.Database

namespace Rule

/-- **Deleting deletes only the rule of the identifier, except under the empty one.**  In a store
that callers bring about from an empty one no rule has the empty identifier, so nothing is to be
deleted under it; but then every active rule is deleted.  Hence a deletion is what it is meant to be
exactly if its identifier is not empty or no rule is active. -/
theorem deletes_only_iff {s : Store} (hs : s.IsEmpty) {calls : List Call}
    (hcalls : ∀ c ∈ calls, c.IsProper) :
    let d := (s.run calls).database
    (∀ r ∈ d.rules, r.id ≠ "") ∧
    (∀ id, d.DeletesOnly id ↔ id ≠ "" ∨ ∀ r ∈ d.rules, r.removed = true) ∧
    ((∃ r ∈ d.rules, r.removed = false) → d.removeRule true "" =
      .ok (d.rules.countP (!·.removed), { d with rules := d.rules.marking fun _ => true })) := by
  obtain ⟨hversion, hids, hlegible⟩ := isLegible_run hs hcalls
  have hne := ids_ne_empty_run hs calls
  generalize (s.run calls).database = d at hversion hids hlegible hne ⊢
  have hempty := Database.removeRule_empty hversion hlegible
  have hnone : ¬ ∃ r ∈ d.rules, r.id = "" ∧ r.removed = false := by
    rintro ⟨r, hr, hid, _⟩
    exact hne r hr hid
  refine ⟨hne, fun id => ⟨fun h => ?_, fun h => ?_⟩, ?_⟩
  · by_cases hid : id = ""
    · subst hid
      refine .inr ?_
      -- nothing was found under the empty identifier, so nothing may have been deleted
      by_contra hall
      rw [if_neg hall, h.missing hnone] at hempty
      cases hempty
    · exact .inl hid
  · by_cases hid : id = ""
    · subst hid
      rcases h with h | hall
      · exact absurd rfl h
      · exact ⟨fun hfound => absurd hfound hnone, fun _ => by rw [hempty, if_pos hall]⟩
    · exact Database.deletesOnly_of_ne hversion hlegible hids hid
  · rintro ⟨r, hr, hactive⟩
    have hall : ¬ ∀ r ∈ d.rules, r.removed = true := fun hall => by
      rw [hall r hr] at hactive
      cases hactive
    rw [hempty, if_neg hall]

/-- A rule with an identifier and nothing else. -/
def bareRule (id : String) : Rule := ⟨id, "", .empty, .empty, false, [], .utc 0, ""⟩

/-- Storing two rules. -/
def savedPair : List Call := [⟨true, 0, .save [bareRule "a", bareRule "b"] false⟩]

theorem isProper_savedPair : ∀ c ∈ savedPair, c.IsProper := by decide

/-- Of two rules one can be deleted by its identifier, a third one is missing, and under the empty
identifier both are deleted. -/
theorem deletes_only_iff_pair :
    Store.fresh.IsEmpty ∧ (∀ c ∈ savedPair, c.IsProper) ∧
      (Store.fresh.run savedPair).database.DeletesOnly "a" ∧
      (Store.fresh.run savedPair).database.DeletesOnly "c" ∧
      ¬ (Store.fresh.run savedPair).database.DeletesOnly "" := by
  obtain ⟨_, hiff, _⟩ := deletes_only_iff Store.isEmpty_fresh isProper_savedPair
  refine ⟨Store.isEmpty_fresh, isProper_savedPair, (hiff "a").mpr (.inl (by decide)),
    (hiff "c").mpr (.inl (by decide)), fun h => ?_⟩
  rcases (hiff "").mp h with hne | hall
  · exact hne rfl
  · exact absurd (hall (Row.ofRule { bareRule "a" with created := .utc 0 }) (.head _)) (by decide)

/-- Deleting the rule with the empty identifier, which no rule has, deletes both rules that are
stored, and says that it did. -/
theorem not_deletesOnly_empty :
    (∀ r ∈ (Store.fresh.run savedPair).database.rules, r.id ≠ "" ∧ r.removed = false) ∧
      (∃ d, (Store.fresh.run savedPair).database.removeRule true "" = .ok (2, d) ∧
        ∀ r ∈ d.rules, r.removed = true) ∧
      ¬ (Store.fresh.run savedPair).database.DeletesOnly "" := by
  have hall : ∀ r ∈ (Store.fresh.run savedPair).database.rules, r.id ≠ "" ∧ r.removed = false := by
    decide
  have hboth : (Store.fresh.run savedPair).database.removeRule true "" =
      .ok (2, { (Store.fresh.run savedPair).database with
        rules := (Store.fresh.run savedPair).database.rules.marking fun _ => true }) := rfl
  refine ⟨hall, ⟨_, hboth, by decide⟩, fun h => ?_⟩
  have hmissing := h.missing fun ⟨r, hr, hid, _⟩ => (hall r hr).1 hid
  rw [hboth] at hmissing
  cases hmissing

end Rule

end AccessRules
