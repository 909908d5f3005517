import AccessRules.Proofs.Lock.Run

/-!
# Records that can be read

**Program** — `Row.record` makes a record of a row; `Table.start` hands it out and `Table.finish`
appends an outcome to its history.

**Spec** — in every table that callers can bring about (`Reachable`) all rows can be read.  There a
lock that is taken comes with its history as it was (`IsSound.start_cases`), and its release appends
exactly one outcome, drops what is beyond ten, and leaves all other rows alone (`IsSound.finish`).

**Crux** — a row is *sound* if it is as the operations write it and its history reads as outcomes.
The second does not follow from the first, since JSON carries documents that are no outcomes; it
holds because only outcomes that can be read again are appended (`Outcome.IsLegible`).
-/

namespace AccessRules.Lock

open Calendar

/-- An outcome whose stored form can be read again. -/
def Outcome.IsLegible (o : Outcome) : Prop := ∃ o', Outcome.read o.stored = .pass o'

/-- The stored text of a history of some outcomes. -/
def IsHistory (s : String) (outcomes : List Outcome) : Prop :=
  ∃ items, AreStored items outcomes ∧ s = historyText items

theorem isHistory_nil : IsHistory "[]" [] := ⟨[], .nil, rfl⟩

theorem IsHistory.read {s : String} {outcomes : List Outcome} (h : IsHistory s outcomes) :
    readHistory s = .ok outcomes := by
  obtain ⟨items, hstored, rfl⟩ := h
  exact readHistory_historyText hstored

/-- What is appended to a history is read behind it, and the last ten are kept. -/
theorem IsHistory.appended {s s' : String} {outcomes : List Outcome} (h : IsHistory s outcomes)
    {o o' : Outcome} (ho : Outcome.read o.stored = .pass o')
    (happ : Table.appended s o = .ok s') : IsHistory s' (lastKept (outcomes ++ [o'])) := by
  obtain ⟨items, hstored, rfl⟩ := h
  rw [appended_historyText hstored.plain] at happ
  exact ⟨_, hstored.snoc o.isPlain_stored ho, (Except.ok.inj happ).symm⟩

/-! ## Sound rows and tables -/

/-- A row that can be read. -/
structure Row.IsSound (r : Row) : Prop extends r.IsKept where
  outcomes : ∃ outcomes, IsHistory r.history outcomes

/-- A table of rows that can be read. -/
def Table.IsSound (t : Table) : Prop := ∀ r ∈ t, r.IsSound

/-- The outcomes of a key; none if it has no row. -/
def Table.outcomesOf (t : Table) (k : Key) : List Outcome :=
  match t.rowOf k with
  | some r => (readHistory r.history).toOption.getD []
  | none => []

theorem Table.outcomesOf_eq {t : Table} {k : Key} {r : Row} {outcomes : List Outcome}
    (hr : t.rowOf k = some r) (h : IsHistory r.history outcomes) : t.outcomesOf k = outcomes := by
  simp only [outcomesOf, hr, h.read, Except.toOption, Option.getD_some]

theorem Table.outcomesOf_of_none {t : Table} {k : Key} (hr : t.rowOf k = none) :
    t.outcomesOf k = [] := by
  simp only [outcomesOf, hr]

/-- The record of a row that can be read. -/
theorem Row.IsSound.record {r : Row} (h : r.IsSound) {outcomes : List Outcome}
    (hh : IsHistory r.history outcomes) : ∃ started ended pinged,
      r.record = .ok ⟨r.id, r.ruleId, r.engine, started, ended, pinged, r.running, outcomes⟩ := by
  obtain ⟨s, hs, hstarted⟩ := h.started
  obtain ⟨p, hp, hpinged⟩ := h.pinged
  have hended : ∃ e, r.ended.mapM readTime = Except.ok e := by
    cases he : r.ended with
    | none => exact ⟨none, rfl⟩
    | some text =>
      obtain ⟨e, hecal, rfl⟩ := h.ended text he
      refine ⟨some (.utc e), ?_⟩
      rw [Option.mapM_some, readTime_storedText hecal]
      rfl
  obtain ⟨e, he⟩ := hended
  refine ⟨.utc s, e, .utc p, Row.record_eq_ok_iff.mpr ?_⟩
  exact ⟨rfl, rfl, rfl, hstarted ▸ readTime_storedText hs, he, hpinged ▸ readTime_storedText hp,
    rfl, hh.read⟩

namespace Row

variable {now : Instant}

theorem isSound_fresh (hnow : inCalendar now = true) (id ruleId engine : String) :
    (fresh id ruleId engine now).IsSound :=
  { isKept_fresh hnow id ruleId engine with outcomes := ⟨[], isHistory_nil⟩ }

theorem IsSound.taken {r : Row} (h : r.IsSound) (hnow : inCalendar now = true) :
    (r.taken now).IsSound :=
  { h.toIsKept.taken hnow with outcomes := h.outcomes }

theorem IsSound.alive {r : Row} (h : r.IsSound) (hnow : inCalendar now = true) :
    (r.alive now).IsSound :=
  { h.toIsKept.alive hnow with outcomes := h.outcomes }

theorem IsSound.released {r : Row} (h : r.IsSound) (hnow : inCalendar now = true)
    {history : String} {outcomes : List Outcome} (hh : IsHistory history outcomes) :
    (r.released now history).IsSound := by
  obtain ⟨items, hstored, htext⟩ := hh
  exact
    { h.toIsKept.released hnow ⟨items, hstored.plain, htext⟩ with
      outcomes := ⟨outcomes, items, hstored, htext⟩ }

/-- The last sign of life of a row can be read. -/
theorem IsSound.readTime {r : Row} (h : r.IsSound) :
    ∃ p, inCalendar p = true ∧ readTime r.pinged = .ok (.utc p) := by
  obtain ⟨p, hp, hpinged⟩ := h.pinged
  exact ⟨p, hp, by rw [hpinged, readTime_storedText hp]⟩

/-- So can the row as it is when it is taken. -/
theorem IsSound.taken_record {r : Row} (h : r.IsSound) (hnow : inCalendar now = true) :
    ∃ record, (r.taken now).record = .ok record := by
  obtain ⟨outcomes, hh⟩ := h.outcomes
  obtain ⟨_, _, _, hrecord⟩ := (h.taken hnow).record hh
  exact ⟨_, hrecord⟩

end Row

namespace Table

variable {t : Table} {now : Instant}

theorem IsSound.isKept (h : t.IsSound) : t.IsKept := fun r hr => (h r hr).toIsKept

theorem isSound_nil : IsSound [] := by
  intro r hr
  cases hr

/-- A lock that was never taken before is free. -/
theorem start_of_none {expire : Duration} {w : Wish} {fresh : String} {later : Instant}
    (hrow : t.rowOf w.key = none) (hnow : inCalendar now = true) :
    ∃ record, (t.start expire w now fresh later).1 = .ok record := by
  have hsound := Row.isSound_fresh hnow fresh w.ruleId w.engine
  obtain ⟨_, _, _, hrecord⟩ := hsound.record isHistory_nil
  rw [start, show t.find? w.ruleId w.engine = none from hrow]
  exact ⟨_, hrecord⟩

theorem IsSound.start (h : t.IsSound) (hnow : inCalendar now = true) (expire : Duration) (w : Wish)
    (fresh : String) : IsSound (t.start expire w now fresh).2 :=
  forall_start h (Row.isSound_fresh hnow ..) fun _ hr => hr.taken hnow

theorem IsSound.ping (h : t.IsSound) (hnow : inCalendar now = true) (ids : List String) :
    IsSound (t.ping ids now) :=
  forall_ping h fun _ hr => hr.alive hnow

theorem IsSound.finish (h : t.IsSound) (hnow : inCalendar now = true) (k : Key) {o : Outcome}
    (ho : o.IsLegible) : IsSound (t.finish k.ruleId k.engine o now).2 := by
  obtain ⟨o', ho⟩ := ho
  refine forall_finish h ?_
  intro r r' history hr hr' happ
  obtain ⟨outcomes, hh⟩ := hr.outcomes
  exact hr'.released hnow (hh.appended ho happ)

end Table

/-! ## Tables that callers bring about -/

/-- A call as callers make it: within the calendar, and with an outcome that can be read again. -/
structure Call.IsProper (c : Call) : Prop where
  inCalendar : inCalendar c.now = true
  legible : ∀ k o, c.request = .finish k o → o.IsLegible

/-- A table that callers can bring about. -/
def Reachable (t : Table) : Prop :=
  ∃ expire calls, (∀ c ∈ calls, c.IsProper) ∧ t = ((Store.empty expire).run calls).table

theorem isSound_step {s : Store} (hs : s.table.IsSound) {c : Call} (hc : c.IsProper) :
    (s.step c).table.IsSound := by
  obtain ⟨caller, now, request⟩ := c
  cases request with
  | start w fresh => exact hs.start hc.inCalendar s.expire w fresh
  | ping ids => exact hs.ping hc.inCalendar ids
  | finish k o => exact hs.finish hc.inCalendar k (hc.legible k o rfl)
  | setExpiry d => exact hs

/-- Records that can be read can be read after any calls that callers make. -/
theorem isSound_run_of_isSound {s : Store} (hs : s.table.IsSound) {calls : List Call}
    (hcalls : ∀ c ∈ calls, c.IsProper) : (s.run calls).table.IsSound := by
  induction calls generalizing s with
  | nil => exact hs
  | cons c calls ih =>
    rw [List.forall_mem_cons] at hcalls
    exact ih (isSound_step hs hcalls.1) hcalls.2

/-- **All records that callers can bring about can be read.** -/
theorem Reachable.isSound {t : Table} (h : Reachable t) : t.IsSound := by
  obtain ⟨expire, calls, hcalls, rfl⟩ := h
  exact isSound_run_of_isSound Table.isSound_nil hcalls

/-! ## What takers and releasers find -/

namespace Table

/-- The lock of a key was taken, and nothing else happened. -/
structure Taken (k : Key) (before after : Table) : Prop where
  row : ∃ r, after.rowOf k = some r ∧ r.running = true
  outcomes : after.outcomesOf k = before.outcomesOf k
  others : ∀ k', k' ≠ k → after.rowOf k' = before.rowOf k'

/-- The lock of a key was released with an outcome, and nothing else happened. -/
structure Appended (k : Key) (o : Outcome) (before after : Table) : Prop where
  row : ∃ r record, after.rowOf k = some r ∧ r.record = .ok record ∧ record.running = false ∧
    record.history = lastKept (before.outcomesOf k ++ [o])
  others : ∀ k', k' ≠ k → after.rowOf k' = before.rowOf k'

variable {t : Table} {now : Instant}

theorem Taken.appended {k : Key} {o : Outcome} {t t' t'' : Table} (h : Taken k t t')
    (h' : Appended k o t' t'') : Appended k o t t'' where
  row := by
    obtain ⟨r, record, hr, hrecord, hrunning, hhistory⟩ := h'.row
    exact ⟨r, record, hr, hrecord, hrunning, by rw [hhistory, h.outcomes]⟩
  others := fun k' hk => (h'.others k' hk).trans (h.others k' hk)

/-- **Taking a lock hands out the record as it was**, or fails and changes nothing. -/
theorem IsSound.start_cases (h : t.IsSound) (hnow : inCalendar now = true) (expire : Duration)
    (w : Wish) (fresh : String) :
    (∃ f, t.start expire w now fresh = (.error f, t)) ∨
    (∃ record t', t.start expire w now fresh = (.ok record, t') ∧ record.ruleId = w.ruleId ∧
      record.engine = w.engine ∧ record.history = t.outcomesOf w.key ∧ Taken w.key t t') := by
  rcases t.start_cases expire w now fresh with ⟨hnone, heq⟩ | ⟨r, hr, _, heq⟩ | ⟨f, heq⟩
  · -- there was no row: the record that is made has no outcomes
    have hsound := Row.isSound_fresh hnow fresh w.ruleId w.engine
    obtain ⟨started, ended, pinged, hrecord⟩ := hsound.record isHistory_nil
    have hrow := rowOf_append_fresh hnone fresh now
    have hnil := outcomesOf_of_none hnone
    refine .inr ⟨_, _, by rw [heq, hrecord], rfl, rfl, hnil.symm, ⟨_, hrow, rfl⟩, ?_, ?_⟩
    · rw [hnil]
      exact outcomesOf_eq hrow isHistory_nil
    · exact fun k' hk => by
        have hother := t.rowOf_start_of_ne expire now fresh hk
        rwa [heq] at hother
  · -- the row was free: taking it leaves its history
    have hsound := h r (mem_of_rowOf hr)
    obtain ⟨outcomes, hh⟩ := hsound.outcomes
    obtain ⟨started, ended, pinged, hrecord⟩ := (hsound.taken hnow).record hh
    have hkey := key_of_rowOf hr
    have hrow := rowOf_modify_taken hr now
    have houtcomes := outcomesOf_eq hr hh
    refine .inr ⟨_, _, by rw [heq, hrecord], congrArg Key.ruleId hkey, congrArg Key.engine hkey,
      houtcomes.symm, ⟨_, hrow, rfl⟩, ?_, ?_⟩
    · rw [houtcomes]
      exact outcomesOf_eq hrow hh
    · exact fun k' hk => by
        have hother := t.rowOf_start_of_ne expire now fresh hk
        rwa [heq] at hother
  · exact .inl ⟨f, heq⟩

/-- **Releasing a lock appends exactly one outcome** and drops what is beyond ten. -/
theorem IsSound.finish_some (h : t.IsSound) (hnow : inCalendar now = true) {k : Key} {r : Row}
    (hr : t.rowOf k = some r) {o : Outcome} (ho : Outcome.read o.stored = .pass o) :
    ∃ t', t.finish k.ruleId k.engine o now = (.ok (), t') ∧ Appended k o t t' := by
  obtain ⟨history, happ, heq⟩ := h.isKept.finish_some hr o now
  have hsound := h r (mem_of_rowOf hr)
  obtain ⟨outcomes, hh⟩ := hsound.outcomes
  have hh' := hh.appended ho happ
  obtain ⟨started, ended, pinged, hrecord⟩ := (hsound.released hnow hh').record hh'
  have hrow := rowOf_modify_released hr now history
  refine ⟨_, heq, ⟨_, _, hrow, hrecord, rfl, ?_⟩, ?_⟩
  · rw [outcomesOf_eq hr hh]
  · exact fun k' hk => by
      have hother := t.rowOf_finish_of_ne o now hk
      rwa [heq] at hother

end Table

end AccessRules.Lock
