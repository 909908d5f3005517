import Mathlib.Data.List.Nodup
import AccessRules.Proofs.Fallible
import AccessRules.Storage.Rules

/-!
# Identifiers of rules

**Program** — the table of rules: `Rule.Table.insertAll`, `Rule.Table.remove`, and
`Database.activeRules`, which looks for the rules that were not removed.

**Spec** — in every table that can be brought about (`Rule.Reachable`) an identifier stands once
(`Reachable.nodup`).  So a rule whose row is marked as removed is not among the active ones
(`not_active_of_removed`).

**Crux** — storing a row either replaces the row with its identifier or comes after a check that
there is none; removing rows changes their marks only.
-/

namespace AccessRules

namespace Rule

/-- A table of rules that can be brought about. -/
inductive Reachable : Table → Prop
  | nil : Reachable []
  | insertAll {t t' : Table} (replacing : Bool) (rules : List Rule) (h : Reachable t)
      (ht : t.insertAll replacing (rules.map Row.ofRule) = .ok t') : Reachable t'
  | remove {t t' : Table} (d : Removal) (n : Nat) (h : Reachable t)
      (ht : t.remove d = .ok (n, t')) : Reachable t'

/-- The identifiers of a table, in its order. -/
def Table.ids (t : Table) : List String := t.map (·.id)

/-! ## Storing -/

theorem Table.ids_replace (t : Table) (row : Row) : (t.replace row).ids = t.ids := by
  rw [replace, ids, ids, List.map_map]
  apply List.map_congr_left
  intro r _
  by_cases h : r.id = row.id
  · simp [h]
  · simp [h]

theorem Table.not_mem_ids {t : Table} {id : String} (h : t.hasId id = false) : id ∉ t.ids := by
  intro hmem
  obtain ⟨r, hr, hid⟩ := List.mem_map.mp hmem
  have hnot := List.any_eq_false.mp h r hr
  exact hnot (beq_iff_eq.mpr hid)

/-- Storing a row leaves identifiers distinct. -/
theorem Table.nodup_insert {t t' : Table} {replacing : Bool} {row : Row}
    (h : t.insert replacing row = .ok t') (hn : t.ids.Nodup) : t'.ids.Nodup := by
  unfold insert at h
  split at h
  · split at h
    · cases h
    · cases h
      rw [ids_replace]
      exact hn
  · split at h
    · cases h
    · split at h
      · cases h
      · next hid =>
        cases h
        rw [ids, List.map_append, List.nodup_append]
        refine ⟨hn, by simp, ?_⟩
        intro a ha b hb hab
        obtain rfl : b = row.id := by simpa using hb
        obtain rfl := hab
        exact not_mem_ids (Bool.eq_false_iff.mpr hid) ha

theorem Table.nodup_insertAll {t t' : Table} {replacing : Bool} {rows : List Row}
    (h : t.insertAll replacing rows = .ok t') (hn : t.ids.Nodup) : t'.ids.Nodup := by
  induction rows generalizing t with
  | nil =>
    cases h
    exact hn
  | cons row rows ih =>
    rw [insertAll, List.foldlM_cons] at h
    obtain ⟨t₁, hrow, hrest⟩ := ok_of_bind h
    exact ih hrest (nodup_insert hrow hn)

/-! ## Removing -/

/-- A mark leaves the identifier. -/
theorem Removal.id_mark {d : Removal} {r r' : Row} (h : d.mark r = .ok r') : r'.id = r.id := by
  rw [mark] at h
  cases hadmits : d.admits r with
  | error f =>
    rw [hadmits] at h
    cases h
  | ok admitted =>
    rw [hadmits] at h
    cases admitted <;> cases h <;> rfl

theorem Table.ids_eq_of_mark {d : Removal} {t t' : Table}
    (h : List.Forall₂ (fun r r' => d.mark r = .ok r') t t') : t'.ids = t.ids := by
  induction h with
  | nil => rfl
  | cons hr _ ih =>
    rw [ids, ids, List.map_cons, List.map_cons, Removal.id_mark hr]
    exact congrArg _ ih

/-- Removing rules leaves all rows in their places. -/
theorem Table.ids_remove {t t' : Table} {d : Removal} {n : Nat} (h : t.remove d = .ok (n, t')) :
    t'.ids = t.ids := by
  rw [remove] at h
  obtain ⟨marks, _, h⟩ := ok_of_bind h
  obtain ⟨rows, hrows, h⟩ := ok_of_bind h
  cases h
  exact ids_eq_of_mark (forall₂_of_mapM hrows)

/-- **An identifier stands once** in every table that can be brought about. -/
theorem Reachable.nodup {t : Table} (h : Reachable t) : t.ids.Nodup := by
  induction h with
  | nil => exact List.nodup_nil
  | insertAll replacing rules _ ht ih => exact Table.nodup_insertAll ht ih
  | remove d n _ ht ih =>
    rw [Table.ids_remove ht]
    exact ih

/-- A row that is to be removed is the one with the identifier, if one is given. -/
theorem Removal.id_of_admits {d : Removal} {r : Row} (h : d.admits r = .ok true) :
    d.id = "" ∨ r.id = d.id := by
  rw [admits] at h
  split at h
  · cases h
  · next hwanted =>
    by_cases hid : r.id = d.id
    · exact .inr hid
    · exact .inl (by simp_all)

/-- Where rules were removed there is one that is marked. -/
theorem Table.exists_removed {t t' : Table} {d : Removal} {n : Nat}
    (h : t.remove d = .ok (n, t')) (hn : n ≠ 0) :
    ∃ r ∈ t', r.removed = true ∧ (d.id = "" ∨ r.id = d.id) := by
  rw [remove] at h
  obtain ⟨marks, hmarks, h⟩ := ok_of_bind h
  obtain ⟨rows, hrows, h⟩ := ok_of_bind h
  cases h
  have htrue : true ∈ marks := List.count_pos_iff.mp (Nat.pos_of_ne_zero hn)
  obtain ⟨r, hr, hadmits⟩ := exists_of_mem_mapM hmarks htrue
  obtain ⟨r', hr', hmark⟩ := exists_of_mapM_mem hrows hr
  rw [Removal.mark, hadmits] at hmark
  cases hmark
  have hid := Removal.id_of_admits hadmits
  exact ⟨_, hr', rfl, hid⟩

/-! ## Looking for active rules -/

/-- A rule has the identifier and the mark of its row. -/
theorem Row.rule_eq {r : Row} {rule : Rule} (h : r.rule = .ok rule) :
    rule.id = r.id ∧ rule.removed = r.removed := by
  rw [Row.rule] at h
  obtain ⟨source, _, h⟩ := ok_of_bind h
  obtain ⟨destination, _, h⟩ := ok_of_bind h
  obtain ⟨labels, _, h⟩ := ok_of_bind h
  obtain ⟨created, _, h⟩ := ok_of_bind h
  cases h
  exact ⟨rfl, rfl⟩

/-- Every selected rule has a row. -/
theorem Table.exists_row_of_select {t : Table} {s : Selection} {rules : List Rule}
    (h : t.select s = .ok rules) {rule : Rule} (hrule : rule ∈ rules) :
    ∃ r ∈ t, r.rule = .ok rule := by
  rw [select] at h
  obtain ⟨found, hfound, h⟩ := ok_of_bind h
  cases h
  obtain ⟨r, hr, hrow⟩ := exists_of_mem_mapM hfound (List.mem_filter.mp hrule).1
  rw [sorted, List.mem_mergeSort] at hr
  exact ⟨r, (List.mem_filter.mp hr).1, hrow⟩

/-- **A rule that is marked as removed is not among the active ones.** -/
theorem not_active_of_removed {d : Storage.Database} {connected : Bool} {rules : List Rule}
    (hreach : Reachable d.rules) (h : d.activeRules connected = .ok rules) {r : Row}
    (hr : r ∈ d.rules) (hremoved : r.removed = true) : r.id ∉ rules.map (·.id) := by
  intro hmem
  obtain ⟨rule, hrule, hid⟩ := List.mem_map.mp hmem
  rw [Storage.Database.activeRules] at h
  obtain ⟨all, hall, rfl⟩ := ok_of_map h
  rw [Storage.Database.allRules, Storage.Database.selectRules] at hall
  obtain ⟨_, _, hselect⟩ := ok_of_bind hall
  obtain ⟨hfound, hactive⟩ := List.mem_filter.mp hrule
  obtain ⟨r', hr', hrow⟩ := Table.exists_row_of_select hselect hfound
  obtain ⟨hid', hremoved'⟩ := Row.rule_eq hrow
  -- both rows have the identifier, so they are the same row
  have hsame : r' = r := List.inj_on_of_nodup_map hreach.nodup hr' hr (hid'.symm.trans hid)
  rw [hremoved', hsame, hremoved] at hactive
  cases hactive

end Rule

end AccessRules
