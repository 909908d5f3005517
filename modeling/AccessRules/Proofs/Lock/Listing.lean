import AccessRules.Proofs.Calendar.TextOrder
import AccessRules.Proofs.Lock.Representation
import AccessRules.Storage.Database

/-!
# Lock records, the last to start first

**Program** — `Database.selectLocks` lists the wanted records; `Table.rows` finds their rows, sorts
them by the texts of their starts and keeps as many as are asked for.

**Spec** — every wanted record is listed once, the last to start first; with a limit the list has as
many records as there are, but no more than the limit, and none that is left out started later than
one that is listed (`listed_newest_first`).

**Crux** — rows are compared as texts, records as points in time.  What it means to be a list of the
last ones is said once, for any items and any order of theirs (`IsListing`): rows are such a list in
the order of their texts (`rows_isListing`), and since texts stand in the order of their instants
(`storedText_le_iff`), their records are one in the order of their starts (`IsListing.map`).
-/

namespace AccessRules.Lock

open Calendar

/-! ## Lists of the last items -/

/-- A list of items found, the last ones first, at most as many as a positive limit says; the other
items are omitted. -/
structure IsListing {α : Type} (later : α → α → Prop) (limit : Int)
    (found listed omitted : List α) : Prop where
  complete : (listed ++ omitted).Perm found
  unlimited : limit ≤ 0 → omitted = []
  limited : 0 < limit → listed.length = min limit.toNat found.length
  ordered : listed.Pairwise later
  latest : ∀ a ∈ listed, ∀ b ∈ omitted, later a b

/-- What is made of the items is listed as they are. -/
theorem IsListing.map {α β : Type} {later : α → α → Prop} {later' : β → β → Prop} {limit : Int}
    {found listed omitted : List α} (h : IsListing later limit found listed omitted) {f : α → β}
    (hf : ∀ a ∈ found, ∀ b ∈ found, later a b → later' (f a) (f b)) :
    IsListing later' limit (found.map f) (listed.map f) (omitted.map f) where
  complete := by
    rw [← List.map_append]
    exact h.complete.map f
  unlimited := fun hlimit => by rw [h.unlimited hlimit, List.map_nil]
  limited := fun hlimit => by rw [List.length_map, List.length_map, h.limited hlimit]
  ordered := by
    rw [List.pairwise_map]
    refine h.ordered.imp_of_mem fun ha hb => hf _ ?_ _ ?_
    · exact h.complete.subset (List.mem_append_left _ ha)
    · exact h.complete.subset (List.mem_append_left _ hb)
  latest := by
    intro a' ha' b' hb'
    obtain ⟨a, ha, rfl⟩ := List.mem_map.mp ha'
    obtain ⟨b, hb, rfl⟩ := List.mem_map.mp hb'
    refine hf a ?_ b ?_ (h.latest a ha b hb)
    · exact h.complete.subset (List.mem_append_left _ ha)
    · exact h.complete.subset (List.mem_append_right _ hb)

/-! ## Rows -/

namespace Row

theorem precedes_iff {a b : Row} : a.precedes b = true ↔
    b.started < a.started ∨ (a.started = b.started ∧
      (a.ruleId < b.ruleId ∨ (a.ruleId = b.ruleId ∧ a.engine ≤ b.engine))) := by
  simp [precedes, belongsBefore]

theorem precedes_trans (a b c : Row) (hab : a.precedes b = true) (hbc : b.precedes c = true) :
    a.precedes c = true := by
  rw [precedes_iff] at *
  rcases hab with hab | ⟨hab, hab' | ⟨hab', hab''⟩⟩
  · rcases hbc with hbc | ⟨hbc, -⟩
    · exact .inl (hbc.trans hab)
    · exact .inl (hbc ▸ hab)
  all_goals rw [hab]
  · rcases hbc with hbc | ⟨hbc, hbc' | ⟨hbc', -⟩⟩
    · exact .inl hbc
    · exact .inr ⟨hbc, .inl (hab'.trans hbc')⟩
    · exact .inr ⟨hbc, .inl (hbc' ▸ hab')⟩
  · rw [hab']
    rcases hbc with hbc | ⟨hbc, hbc' | ⟨hbc', hbc''⟩⟩
    · exact .inl hbc
    · exact .inr ⟨hbc, .inl hbc'⟩
    · exact .inr ⟨hbc, .inr ⟨hbc', hab''.trans hbc''⟩⟩

theorem precedes_total (a b : Row) : (a.precedes b || b.precedes a) = true := by
  rw [Bool.or_eq_true, precedes_iff, precedes_iff]
  rcases lt_trichotomy a.started b.started with h | h | h
  · exact .inr (.inl h)
  · rcases lt_trichotomy a.ruleId b.ruleId with h' | h' | h'
    · exact .inl (.inr ⟨h, .inl h'⟩)
    · rcases le_total a.engine b.engine with h'' | h''
      · exact .inl (.inr ⟨h, .inr ⟨h', h''⟩⟩)
      · exact .inr (.inr ⟨h.symm, .inr ⟨h'.symm, h''⟩⟩)
    · exact .inr (.inr ⟨h.symm, .inl h'⟩)
  · exact .inl (.inl h)

/-- A row that is listed before another did not start earlier. -/
theorem started_le_of_precedes {a b : Row} (h : a.precedes b = true) : b.started ≤ a.started := by
  rcases precedes_iff.mp h with h | ⟨h, -⟩
  · exact h.le
  · exact h.ge

end Row

/-- Rows in the order of their texts, the last to start first. -/
def StartedLater (a b : Row) : Prop := b.started ≤ a.started

theorem pairwise_sort_started (rows : List Row) :
    (rows.mergeSort fun a b => decide (b.started ≤ a.started)).Pairwise StartedLater := by
  have hsorted : (rows.mergeSort fun a b => decide (b.started ≤ a.started)).Pairwise
      fun a b => decide (b.started ≤ a.started) = true := by
    refine List.pairwise_mergeSort (fun a b c hab hbc => ?_) (fun a b => ?_) rows
    · exact decide_eq_true ((of_decide_eq_true hbc).trans (of_decide_eq_true hab))
    · simpa using le_total b.started a.started
  exact hsorted.imp fun h => of_decide_eq_true h

/-- The newest of the rows found, and what they leave: the sort before the last one only decides
which of the rows that started together stay. -/
theorem newest_isLatest (limit : Nat) (s : Selection) (found : List Row) :
    ∃ omitted, (Table.newest limit s found ++ omitted).Perm found ∧
      (Table.newest limit s found).length = min limit found.length ∧
      ∀ a ∈ Table.newest limit s found, ∀ b ∈ omitted, StartedLater a b := by
  simp only [Table.newest]
  generalize hrows : (if s.ruleIds.isSome then found.mergeSort Row.belongsBefore else found) = rows
  have hfound : rows.Perm found := by
    rw [← hrows]
    split
    · exact List.mergeSort_perm ..
    · exact .refl _
  have hsorted := pairwise_sort_started rows
  have hperm := (List.mergeSort_perm rows fun a b => decide (b.started ≤ a.started)).trans hfound
  generalize rows.mergeSort (fun a b => decide (b.started ≤ a.started)) = sorted at hsorted hperm ⊢
  have hsplit := List.take_append_drop limit sorted
  refine ⟨sorted.drop limit, ?_, ?_, ?_⟩
  · rw [hsplit]
    exact hperm
  · rw [List.length_take, hperm.length_eq]
  · rw [← hsplit, List.pairwise_append] at hsorted
    exact hsorted.2.2

/-- **Rows are listed in the order of the texts of their starts.** -/
theorem rows_isListing (t : Table) (s : Selection) : ∃ omitted,
    IsListing StartedLater s.limit (t.filter s.admits) (t.rows s) omitted := by
  have hordered : ∀ rows : List Row, (rows.mergeSort Row.precedes).Pairwise StartedLater :=
    fun rows => (List.pairwise_mergeSort Row.precedes_trans Row.precedes_total rows).imp
      Row.started_le_of_precedes
  unfold Table.rows
  by_cases hlimit : 0 < s.limit
  · obtain ⟨omitted, hcomplete, hlength, hlatest⟩ :=
      newest_isLatest s.limit.toNat s (t.filter s.admits)
    simp only [if_pos hlimit]
    have hperm :=
      List.mergeSort_perm (Table.newest s.limit.toNat s (t.filter s.admits)) Row.precedes
    refine ⟨omitted, (hperm.append_right _).trans hcomplete, fun h => by omega, fun _ => ?_,
      hordered _, fun a ha => hlatest a (hperm.subset ha)⟩
    rw [List.length_mergeSort, hlength]
  · simp only [if_neg hlimit]
    refine ⟨[], ?_, fun _ => rfl, fun h => absurd h hlimit, hordered _, fun _ _ _ hb => by cases hb⟩
    rw [List.append_nil]
    exact List.mergeSort_perm ..

/-! ## Records -/

/-- Whether a record is wanted. -/
def Selection.wants (s : Selection) (r : Record) : Bool :=
  wanted s.ruleIds r.ruleId && wanted s.engines r.engine

/-- Records in the order of their starts, the last one first. -/
def Record.StartedLater (a b : Record) : Prop := b.started.instant ≤ a.started.instant

/-- The key of a record. -/
def Record.key (x : Record) : Key := ⟨x.ruleId, x.engine⟩

/-- A row and its record. -/
structure Row.Shows (r : Row) (x : Record) : Prop where
  record : r.record = .ok x
  key : x.key = r.key
  started : ∃ t, inCalendar t = true ∧ r.started = storedText t ∧ x.started = .utc t

theorem Row.IsSound.shows {r : Row} (h : r.IsSound) : ∃ x, r.Shows x := by
  obtain ⟨outcomes, hh⟩ := h.outcomes
  obtain ⟨started, ended, pinged, hrecord⟩ := h.record hh
  obtain ⟨t, ht, htext⟩ := h.started
  have hread := (Row.record_eq_ok_iff.mp hrecord).started
  rw [htext, readTime_storedText ht] at hread
  exact ⟨_, hrecord, rfl, t, ht, htext, (Except.ok.inj hread).symm⟩

theorem Row.Shows.wants {r : Row} {x : Record} (h : r.Shows x) (s : Selection) :
    s.wants x = s.admits r := by
  have hrule : x.ruleId = r.ruleId := congrArg Key.ruleId h.key
  have hengine : x.engine = r.engine := congrArg Key.engine h.key
  rw [Selection.wants, Selection.admits, hrule, hengine]

/-- Rows in the order of their texts have records in the order of their starts. -/
theorem Row.Shows.startedLater {r r' : Row} {x x' : Record} (h : r.Shows x) (h' : r'.Shows x')
    (hlater : StartedLater r r') : x.StartedLater x' := by
  obtain ⟨t, ht, htext, hstarted⟩ := h.started
  obtain ⟨t', ht', htext', hstarted'⟩ := h'.started
  rw [StartedLater, htext, htext', storedText_le_iff ht' ht] at hlater
  rw [Record.StartedLater, hstarted, hstarted', Moment.instant_utc, Moment.instant_utc]
  exact hlater

/-- The records of some rows. -/
theorem mapM_record {rows : List Row} {f : Row → Record} (h : ∀ r ∈ rows, r.Shows (f r)) :
    rows.mapM Row.record = .ok (rows.map f) := by
  induction rows with
  | nil => rfl
  | cons r rows ih =>
    rw [List.mapM_cons, (h r (List.mem_cons_self ..)).record,
      ih fun r' hr' => h r' (List.mem_cons_of_mem _ hr')]
    rfl

/-- The records of a table that can be read, and of those the list of the wanted ones. -/
theorem Table.IsSound.select {t : Table} (h : t.IsSound) (s : Selection) :
    ∃ all records omitted, t.mapM Row.record = .ok all ∧ all.map Record.key = t.map Row.key ∧
      t.select s = .ok records ∧
      IsListing Record.StartedLater s.limit (all.filter s.wants) records omitted := by
  have hshows : ∀ r, ∃ x, r ∈ t → r.Shows x := by
    intro r
    by_cases hr : r ∈ t
    · obtain ⟨x, hx⟩ := (h r hr).shows
      exact ⟨x, fun _ => hx⟩
    · exact ⟨⟨"", "", "", .utc 0, none, .utc 0, false, []⟩, fun hr' => absurd hr' hr⟩
  choose f hf using hshows
  obtain ⟨omitted, hlisting⟩ := rows_isListing t s
  have hfound : (t.map f).filter s.wants = (t.filter s.admits).map f := by
    rw [List.filter_map]
    congr 1
    exact List.filter_congr fun r hr => (hf r hr).wants s
  have hmem : ∀ r ∈ t.filter s.admits, r ∈ t := fun r hr => List.mem_of_mem_filter hr
  have hlisted : ∀ r ∈ t.rows s, r ∈ t := fun r hr =>
    hmem r (hlisting.complete.subset (List.mem_append_left _ hr))
  refine ⟨t.map f, (t.rows s).map f, omitted.map f, mapM_record hf, ?_, ?_, ?_⟩
  · rw [List.map_map]
    exact List.map_congr_left fun r hr => (hf r hr).key
  · exact mapM_record fun r hr => hf r (hlisted r hr)
  · rw [hfound]
    exact hlisting.map fun r hr r' hr' => (hf r (hmem r hr)).startedLater (hf r' (hmem r' hr'))

/-! ## Reachable tables -/

/-- In a table that callers can bring about every key stands once. -/
theorem Reachable.nodup_keys {t : Table} (h : Reachable t) : (t.map Row.key).Nodup := by
  obtain ⟨expire, calls, -, rfl⟩ := h
  induction calls using List.reverseRecOn with
  | nil => exact List.nodup_nil
  | append_singleton calls c ih =>
    rw [Store.run_append]
    exact (tableChange_step _ c).nodup_keys ih

end AccessRules.Lock
