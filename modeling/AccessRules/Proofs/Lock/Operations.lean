import AccessRules.Proofs.Lock.History

/-!
# What the operations on locks do

**Program** — `Table.start`, `Table.ping` and `Table.finish`.

**Spec** — each of them changes the row of one rule and one engine, or the rows with some
identifiers, and leaves the others as they were.

  1. A lock belongs to a `Key`; what is done to all rows is done to the row of a key
     (`rowOf_map`).
  2. `start_cases` says all that `start` can do: a row is made, the row is taken because it is free,
     or nothing changes.  `Wish.lt_of_mayTake` says what a free row means for the clock.
  3. Rows stay as the operations write them (`Row.IsKept`): their times are instants of the calendar
     and their histories documents that JSON holds as they are.  So a lock that is there can always
     be released (`IsKept.finish_some`).
-/

namespace AccessRules.Lock

open Calendar

/-! ## Keys -/

/-- What a lock belongs to: a rule and an engine. -/
structure Key where
  ruleId : String
  engine : String
  deriving DecidableEq, Repr

/-- What a wish is for. -/
def Wish.key (w : Wish) : Key := ⟨w.ruleId, w.engine⟩

/-- What a row belongs to. -/
def Row.key (r : Row) : Key := ⟨r.ruleId, r.engine⟩

theorem Row.isOf_iff {r : Row} {k : Key} : r.isOf k.ruleId k.engine = true ↔ r.key = k := by
  obtain ⟨ruleId, engine⟩ := k
  simp [Row.isOf, Row.key]

namespace Table

/-- The row of a key. -/
def rowOf (t : Table) (k : Key) : Option Row := t.find? k.ruleId k.engine

theorem mem_of_rowOf {t : Table} {k : Key} {r : Row} (h : t.rowOf k = some r) : r ∈ t :=
  List.mem_of_find?_eq_some h

theorem key_of_rowOf {t : Table} {k : Key} {r : Row} (h : t.rowOf k = some r) : r.key = k :=
  Row.isOf_iff.mp (List.find?_some h)

/-- What is done to all rows is done to the row of a key. -/
theorem rowOf_map {f : Row → Row} (hf : ∀ r, (f r).key = r.key) (t : Table) (k : Key) :
    rowOf (t.map f) k = (t.rowOf k).map f := by
  have hcomp : Row.isOf k.ruleId k.engine ∘ f = Row.isOf k.ruleId k.engine := by
    funext r
    rw [Bool.eq_iff_iff, Function.comp, Row.isOf_iff, Row.isOf_iff, hf]
  rw [rowOf, find?, List.find?_map, hcomp]
  rfl

theorem rowOf_append_singleton (t : Table) (r : Row) (k : Key) :
    rowOf (t ++ [r]) k = (t.rowOf k).or (if r.key = k then some r else none) := by
  have hsingle : List.find? (Row.isOf k.ruleId k.engine) [r] =
      if r.key = k then some r else none := by
    by_cases h : r.key = k
    · rw [List.find?_cons_of_pos (Row.isOf_iff.mpr h), if_pos h]
    · rw [List.find?_cons_of_neg (fun hof => h (Row.isOf_iff.mp hof)), if_neg h]
      rfl
  rw [rowOf, find?, List.find?_append, hsingle]
  rfl

/-- A sign of life for some rows may be one for the row of a key. -/
theorem rowOf_ping (t : Table) (ids : List String) (now : Instant) (k : Key) :
    (t.ping ids now).rowOf k =
      (t.rowOf k).map fun r => if ids.contains r.id then r.alive now else r := by
  apply rowOf_map
  intro r
  split <;> rfl

/-- A change of the rows of a key changes the row of that key. -/
theorem rowOf_modify {f : Row → Row} (hf : ∀ r, (f r).key = r.key) (t : Table) (k : Key) :
    rowOf (t.modify k.ruleId k.engine f) k = (t.rowOf k).map f := by
  rw [modify, rowOf_map]
  · cases h : t.rowOf k with
    | none => rfl
    | some r => simp [Row.isOf_iff.mpr (key_of_rowOf h)]
  · intro r
    split
    · exact hf r
    · rfl

/-- A change of the rows of a key leaves the rows of other keys. -/
theorem rowOf_modify_of_ne {f : Row → Row} (hf : ∀ r, (f r).key = r.key) (t : Table) {k k' : Key}
    (hk : k' ≠ k) : rowOf (t.modify k.ruleId k.engine f) k' = t.rowOf k' := by
  rw [modify, rowOf_map]
  · cases h : t.rowOf k' with
    | none => rfl
    | some r =>
      have hne : ¬ r.isOf k.ruleId k.engine = true := fun hof =>
        hk ((key_of_rowOf h).symm.trans (Row.isOf_iff.mp hof))
      simp [hne]
  · intro r
    split
    · exact hf r
    · rfl

/-- The row that is made for a key without one. -/
theorem rowOf_append_fresh {t : Table} {w : Wish} (h : t.rowOf w.key = none) (fresh : String)
    (now : Instant) :
    rowOf (t ++ [Row.fresh fresh w.ruleId w.engine now]) w.key =
      some (Row.fresh fresh w.ruleId w.engine now) := by
  have hkey : (Row.fresh fresh w.ruleId w.engine now).key = w.key := rfl
  rw [rowOf_append_singleton, h, if_pos hkey]
  rfl

/-- The row of a key after it was taken. -/
theorem rowOf_modify_taken {t : Table} {w : Wish} {r : Row} (h : t.rowOf w.key = some r)
    (now : Instant) :
    rowOf (t.modify w.ruleId w.engine (Row.taken now)) w.key = some (r.taken now) := by
  have hmod := rowOf_modify (f := Row.taken now) (fun _ => rfl) t w.key
  rw [h] at hmod
  exact hmod

/-- The row of a key after it was released. -/
theorem rowOf_modify_released {t : Table} {k : Key} {r : Row} (h : t.rowOf k = some r)
    (now : Instant) (history : String) :
    rowOf (t.modify k.ruleId k.engine (Row.released now history)) k =
      some (r.released now history) := by
  rw [rowOf_modify (f := Row.released now history) (fun _ => rfl), h]
  rfl

end Table

/-! ## Taking a lock -/

/-- A row is free for a wish at an instant. -/
def Row.IsFree (r : Row) (expire : Duration) (w : Wish) (now : Instant) : Prop :=
  ∃ pinged, readTime r.pinged = .ok pinged ∧ w.mayTake expire r.running pinged now = .ok true

/-- **All that taking a lock can do.** -/
theorem Table.start_cases (t : Table) (expire : Duration) (w : Wish) (now : Instant)
    (fresh : String) (later : Instant := now) :
    (t.rowOf w.key = none ∧ t.start expire w now fresh later =
      ((Row.fresh fresh w.ruleId w.engine now).record,
        t ++ [Row.fresh fresh w.ruleId w.engine now])) ∨
    (∃ r, t.rowOf w.key = some r ∧ r.IsFree expire w now ∧ t.start expire w now fresh later =
      ((r.taken now).record, t.modify w.ruleId w.engine (Row.taken now))) ∨
    (∃ f, t.start expire w now fresh later = (.error f, t)) := by
  unfold start
  split
  · next h => exact .inl ⟨h, rfl⟩
  · next r h =>
    split
    · next hfree =>
      refine .inr (.inl ⟨r, h, ?_, rfl⟩)
      simp only [bind, Except.bind] at hfree
      split at hfree
      · cases hfree
      · next pinged hpinged =>
        refine ⟨pinged, hpinged, ?_⟩
        split at hfree
        · cases hfree
        · next may hmay =>
          cases may with
          | true => exact hmay
          | false =>
            simp only [Bool.false_eq_true, if_false] at hfree
            split at hfree <;> cases hfree
    · next f _ => exact .inr (.inr ⟨f, rfl⟩)

/-- Taking the lock of a row whose last sign of life can be read. -/
theorem Table.start_of_rowOf {t : Table} {expire : Duration} {w : Wish} {now later : Instant}
    {fresh : String} {r : Row} (hr : t.rowOf w.key = some r) {pinged : Moment}
    (hp : readTime r.pinged = .ok pinged) :
    t.start expire w now fresh later =
      match w.mayTake expire r.running pinged now with
      | .ok true => ((r.taken now).record, t.modify w.ruleId w.engine (Row.taken now))
      | .ok false => (match w.retryAfter r.running pinged later with
          | .ok d => .error (w.refusal d)
          | .error f => .error f, t)
      | .error f => (.error f, t) := by
  rw [start, show t.find? w.ruleId w.engine = some r from hr]
  simp only [hp, bind, Except.bind]
  cases w.mayTake expire r.running pinged now with
  | error f => rfl
  | ok free =>
    cases free with
    | true => rfl
    | false =>
      simp only [Bool.false_eq_true, if_false]
      cases w.retryAfter r.running pinged later with
      | ok d => rfl
      | error f => rfl

/-- The record of a lock that was taken is of the rule and the engine it was wished for. -/
theorem Table.names_of_start {t : Table} {expire : Duration} {w : Wish} {now : Instant}
    {fresh : String} {record : Record} (h : (t.start expire w now fresh).1 = .ok record) :
    record.ruleId = w.ruleId ∧ record.engine = w.engine := by
  rcases t.start_cases expire w now fresh with ⟨_, heq⟩ | ⟨r, hr, _, heq⟩ | ⟨f, heq⟩
  · rw [heq] at h
    have hread := Row.record_eq_ok_iff.mp h
    exact ⟨hread.ruleId, hread.engine⟩
  · rw [heq] at h
    have hread := Row.record_eq_ok_iff.mp h
    have hkey : r.key = w.key := key_of_rowOf hr
    exact ⟨hread.ruleId.trans (congrArg Key.ruleId hkey),
      hread.engine.trans (congrArg Key.engine hkey)⟩
  · rw [heq] at h
    cases h

/-- Taking a lock leaves the rows of other keys. -/
theorem Table.rowOf_start_of_ne (t : Table) (expire : Duration) {w : Wish} (now : Instant)
    (fresh : String) {k : Key} (hk : k ≠ w.key) :
    (t.start expire w now fresh).2.rowOf k = t.rowOf k := by
  rcases t.start_cases expire w now fresh with ⟨_, heq⟩ | ⟨_, _, _, heq⟩ | ⟨_, heq⟩
  · have hkey : (Row.fresh fresh w.ruleId w.engine now).key = w.key := rfl
    rw [heq, rowOf_append_singleton, if_neg (fun h => hk (h.symm.trans hkey)), Option.or_none]
  · rw [heq]
    exact rowOf_modify_of_ne (f := Row.taken now) (fun _ => rfl) t hk
  · rw [heq]

/-- An unforced wish takes a row only after its protection has run out. -/
theorem Wish.lt_of_mayTake {w : Wish} {expire : Duration} {running : Bool} {p now : Instant}
    (hforce : w.force = false) (h : w.mayTake expire running (.utc p) now = .ok true) :
    p + w.protection expire running < now := by
  rw [mayTake, hforce] at h
  simp only [Bool.false_eq_true, if_false, Moment.shift?] at h
  split at h
  · next limit hlimit =>
    split at hlimit
    · have hreading := (Option.some.inj hlimit).symm
      subst hreading
      simp only [Except.ok.injEq, decide_eq_true_eq, Moment.instant, Moment.utc, Option.getD_some,
        Int.zero_mul, Int.sub_zero] at h
      exact Int.add_lt_of_lt_sub_right h
    · cases hlimit
  · cases h

theorem Wish.after_le_protection (w : Wish) (expire : Duration) (running : Bool) :
    w.after ≤ w.protection expire running := by
  unfold protection
  split
  · exact Int.le_max_right ..
  · exact Int.le_refl _

/-! ## Releasing a lock -/

/-- **All that releasing a lock can do.** -/
theorem Table.finish_cases (t : Table) (k : Key) (o : Outcome) (now : Instant) :
    (t.rowOf k = none ∧ t.finish k.ruleId k.engine o now = (.ok (), t)) ∨
    (∃ r history, t.rowOf k = some r ∧ appended r.history o = .ok history ∧
      t.finish k.ruleId k.engine o now =
        (.ok (), t.modify k.ruleId k.engine (Row.released now history))) ∨
    (∃ r f, t.rowOf k = some r ∧ appended r.history o = .error f ∧
      t.finish k.ruleId k.engine o now = (.error f, t)) := by
  unfold finish
  split
  · next h => exact .inl ⟨h, rfl⟩
  · next r h =>
    split
    · next history hh => exact .inr (.inl ⟨r, history, h, hh, rfl⟩)
    · next f hf => exact .inr (.inr ⟨r, f, h, hf, rfl⟩)

/-- Releasing a lock that never was does nothing. -/
theorem Table.finish_none {t : Table} {k : Key} (h : t.rowOf k = none) (o : Outcome)
    (now : Instant) : t.finish k.ruleId k.engine o now = (.ok (), t) := by
  rw [finish, show t.find? k.ruleId k.engine = none from h]

/-- Releasing a lock leaves the rows of other keys. -/
theorem Table.rowOf_finish_of_ne (t : Table) {k k' : Key} (o : Outcome) (now : Instant)
    (hk : k' ≠ k) : (t.finish k.ruleId k.engine o now).2.rowOf k' = t.rowOf k' := by
  rcases t.finish_cases k o now with ⟨_, heq⟩ | ⟨_, history, _, _, heq⟩ | ⟨_, _, _, _, heq⟩
  · rw [heq]
  · rw [heq]
    exact rowOf_modify_of_ne (f := Row.released now history) (fun _ => rfl) t hk
  · rw [heq]

/-! ## What holds of all rows -/

namespace Table

variable {P : Row → Prop} {t : Table} {now : Instant}

theorem forall_modify {f : Row → Row} (h : ∀ r ∈ t, P r) (hf : ∀ r ∈ t, P (f r))
    (ruleId engine : String) : ∀ r ∈ t.modify ruleId engine f, P r := by
  intro r hr
  obtain ⟨r', hr', rfl⟩ := List.mem_map.mp hr
  split
  · exact hf r' hr'
  · exact h r' hr'

/-- What holds of fresh rows and goes on to hold of taken ones survives a start. -/
theorem forall_start {expire : Duration} {w : Wish} {fresh : String} (h : ∀ r ∈ t, P r)
    (hfresh : P (.fresh fresh w.ruleId w.engine now)) (htaken : ∀ r, P r → P (r.taken now)) :
    ∀ r ∈ (t.start expire w now fresh).2, P r := by
  rcases t.start_cases expire w now fresh with ⟨_, heq⟩ | ⟨_, _, _, heq⟩ | ⟨_, heq⟩
  · rw [heq]
    intro r hr
    rcases List.mem_append.mp hr with hr | hr
    · exact h r hr
    · rw [List.mem_singleton.mp hr]
      exact hfresh
  · rw [heq]
    exact forall_modify h (fun r hr => htaken r (h r hr)) _ _
  · rw [heq]
    exact h

theorem forall_ping {ids : List String} (h : ∀ r ∈ t, P r) (halive : ∀ r, P r → P (r.alive now)) :
    ∀ r ∈ t.ping ids now, P r := by
  intro r hr
  obtain ⟨r', hr', rfl⟩ := List.mem_map.mp hr
  split
  · exact halive r' (h r' hr')
  · exact h r' hr'

/-- What goes on to hold of released rows survives a release; the history may be that of another
row. -/
theorem forall_finish {k : Key} {o : Outcome} (h : ∀ r ∈ t, P r)
    (hreleased : ∀ r r' history, P r → P r' → appended r.history o = .ok history →
      P (r'.released now history)) :
    ∀ r ∈ (t.finish k.ruleId k.engine o now).2, P r := by
  rcases t.finish_cases k o now with ⟨_, heq⟩ | ⟨r, history, hr, happ, heq⟩ | ⟨_, _, _, _, heq⟩
  · rw [heq]
    exact h
  · rw [heq]
    refine forall_modify h (fun r' hr' => ?_) _ _
    exact hreleased r r' history (h r (mem_of_rowOf hr)) (h r' hr') happ
  · rw [heq]
    exact h

end Table

/-! ## Rows as they are kept -/

/-- The stored text of an instant of the calendar. -/
def IsInstantText (s : String) : Prop := ∃ t, inCalendar t = true ∧ s = storedText t

/-- The stored text of a history of documents that JSON holds as they are. -/
def IsHistoryText (s : String) : Prop :=
  ∃ items, Json.arePlain items = true ∧ s = historyText items

/-- A row as the operations write it. -/
structure Row.IsKept (r : Row) : Prop where
  started : IsInstantText r.started
  ended : ∀ s ∈ r.ended, IsInstantText s
  pinged : IsInstantText r.pinged
  history : IsHistoryText r.history

theorem readTime_storedText {t : Instant} (h : inCalendar t = true) :
    readTime (storedText t) = .ok (.utc t) := by
  rw [readTime, ofIso?_storedText h]

/-- To a stored history one more outcome can be appended. -/
theorem IsHistoryText.appended {s : String} (h : IsHistoryText s) (o : Outcome) :
    ∃ s', Table.appended s o = .ok s' ∧ IsHistoryText s' := by
  obtain ⟨items, hplain, rfl⟩ := h
  exact ⟨_, appended_historyText hplain o, _, arePlain_lastKept hplain o.isPlain_stored, rfl⟩

namespace Row

variable {now : Instant}

theorem isKept_fresh (hnow : inCalendar now = true) (id ruleId engine : String) :
    (fresh id ruleId engine now).IsKept where
  started := ⟨now, hnow, rfl⟩
  ended := fun _ hs => by cases hs
  pinged := ⟨now, hnow, rfl⟩
  history := ⟨[], rfl, rfl⟩

theorem IsKept.taken {r : Row} (h : r.IsKept) (hnow : inCalendar now = true) :
    (r.taken now).IsKept :=
  { h with started := ⟨now, hnow, rfl⟩, pinged := ⟨now, hnow, rfl⟩ }

theorem IsKept.alive {r : Row} (h : r.IsKept) (hnow : inCalendar now = true) :
    (r.alive now).IsKept :=
  { h with pinged := ⟨now, hnow, rfl⟩ }

theorem IsKept.released {r : Row} (h : r.IsKept) (hnow : inCalendar now = true) {history : String}
    (hh : IsHistoryText history) : (r.released now history).IsKept :=
  { h with
    ended := fun _ hs => ⟨now, hnow, (Option.some.inj hs).symm⟩
    pinged := ⟨now, hnow, rfl⟩
    history := hh }

end Row

/-- A table of rows as they are kept. -/
def Table.IsKept (t : Table) : Prop := ∀ r ∈ t, r.IsKept

namespace Table

variable {t : Table} {now : Instant}

theorem isKept_nil : IsKept [] := by
  intro r hr
  cases hr

theorem IsKept.start (h : t.IsKept) (hnow : inCalendar now = true) (expire : Duration) (w : Wish)
    (fresh : String) : IsKept (t.start expire w now fresh).2 :=
  forall_start h (Row.isKept_fresh hnow ..) fun _ hr => hr.taken hnow

theorem IsKept.ping (h : t.IsKept) (hnow : inCalendar now = true) (ids : List String) :
    IsKept (t.ping ids now) :=
  forall_ping h fun _ hr => hr.alive hnow

theorem IsKept.finish (h : t.IsKept) (hnow : inCalendar now = true) (k : Key) (o : Outcome) :
    IsKept (t.finish k.ruleId k.engine o now).2 := by
  refine forall_finish h ?_
  intro r r' history hr hr' happ
  obtain ⟨history', happ', hh⟩ := hr.history.appended o
  obtain rfl := Except.ok.inj (happ'.symm.trans happ)
  exact hr'.released hnow hh

/-- A lock that is there can always be released. -/
theorem IsKept.finish_some (h : t.IsKept) {k : Key} {r : Row} (hr : t.rowOf k = some r)
    (o : Outcome) (now : Instant) :
    ∃ history, appended r.history o = .ok history ∧ t.finish k.ruleId k.engine o now =
      (.ok (), t.modify k.ruleId k.engine (Row.released now history)) := by
  obtain ⟨history, happ, _⟩ := (h r (mem_of_rowOf hr)).history.appended o
  rcases t.finish_cases k o now with ⟨hnone, _⟩ | ⟨r', history', hr', happ', heq⟩ |
    ⟨r', f, hr', happ', _⟩
  · rw [hr] at hnone
    cases hnone
  · obtain rfl := Option.some.inj (hr.symm.trans hr')
    exact ⟨history', happ', heq⟩
  · obtain rfl := Option.some.inj (hr.symm.trans hr')
    rw [happ] at happ'
    cases happ'

end Table

end AccessRules.Lock
