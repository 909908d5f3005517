import Mathlib.Data.List.Nodup
import Mathlib.Data.List.TakeWhile
import AccessRules.Proofs.Lock.Soundness

/-!
# What a table of locks stands for

**Program** — the store of locks under starts, signs of life, releases and new expiries, successful
or not, in any order and with any keys (`Store.run`).

**Spec** — the table stands for a map from keys to identifiers and outcomes: one row for each key
whose lock was ever taken, under an identifier of its own that never changes, and in it the last ten
of the outcomes it was released with since (`store_represents`).

**Crux** — what a table is called by and what it says of outcomes change in two independent ways.

  1. A call maps the rows and leaves their names, or it appends one fresh row for a key without one
     (`TableChange`).  Distinctness of keys and of identifiers follows from that alone.
  2. Of one key a call creates the history, leaves it, or appends the outcome it carries
     (`HistoryChange`).  Keeping ten after each append is keeping the last ten of all
     (`lastKept_snoc`), so the invariant `Recounts` can speak of all outcomes ever passed.
-/

namespace AccessRules.Lock

open Calendar

/-! ## Outcomes passed -/

/-- The outcome a call released the lock of a key with. -/
def Visit.outcome? (k : Key) (v : Visit) : Option Outcome :=
  match v.call.request with
  | .finish k' o => if k' = k then some o else none
  | _ => none

/-- The outcomes a key was released with since its lock was first taken, the oldest first. -/
def outcomesSince (k : Key) (visits : List Visit) : List Outcome :=
  (visits.dropWhile fun v => !v.starts k).filterMap (·.outcome? k)

/-- No call that takes a lock carries an outcome. -/
theorem Visit.outcome?_of_starts {k : Key} {v : Visit} (h : v.starts k = true) :
    v.outcome? k = none := by
  obtain ⟨s, caller, now, request⟩ := v
  cases request with
  | finish k' o => cases h
  | _ => rfl

/-- The call that takes the lock of a key for the first time begins its outcomes anew. -/
theorem outcomesSince_snoc_first {k : Key} {visits : List Visit} {v : Visit}
    (h : ∀ m ∈ visits, m.starts k = false) (hv : v.starts k = true) :
    outcomesSince k (visits ++ [v]) = [] := by
  have hall : ∀ m ∈ visits, (!m.starts k) = true := fun m hm => by rw [h m hm]; rfl
  rw [outcomesSince, List.dropWhile_append_of_pos hall]
  simp [hv, Visit.outcome?_of_starts hv]

/-- After that every outcome counts. -/
theorem outcomesSince_snoc {k : Key} {visits : List Visit} (h : ∃ m ∈ visits, m.starts k = true)
    (v : Visit) :
    outcomesSince k (visits ++ [v]) = outcomesSince k visits ++ (v.outcome? k).toList := by
  have hsome : (visits.dropWhile fun v => !v.starts k) ≠ [] := by
    obtain ⟨m, hm, hms⟩ := h
    intro hnil
    have hnone := List.dropWhile_eq_nil_iff.mp hnil m hm
    rw [hms] at hnone
    cases hnone
  rw [outcomesSince, List.dropWhile_append, if_neg (by simpa using hsome), List.filterMap_append,
    outcomesSince]
  cases ho : v.outcome? k with
  | none => rw [List.filterMap_cons_none ho, List.filterMap_nil, Option.toList_none]
  | some o => rw [List.filterMap_cons_some ho, List.filterMap_nil, Option.toList_some]

/-- What is kept after one more is kept of all. -/
theorem lastKept_snoc {α : Type} (l : List α) (x : α) :
    lastKept (lastKept l ++ [x]) = lastKept (l ++ [x]) := by
  by_cases hlength : l.length ≤ historyLimit
  · have hall : lastKept l = l := by
      rw [lastKept, Nat.sub_eq_zero_of_le hlength, List.drop_zero]
    rw [hall]
  · -- as many as may be kept are there, so the first of them is dropped for the new one
    have hlong : (lastKept l).length = historyLimit := by
      rw [lastKept, List.length_drop]
      omega
    have hdrop : 1 ≤ (lastKept l).length := by
      rw [hlong]
      decide
    rw [lastKept, List.length_append, hlong, List.length_singleton, Nat.add_sub_cancel_left,
      List.drop_append_of_le_length hdrop, lastKept, List.drop_drop, lastKept, List.length_append,
      List.length_singleton, List.drop_append_of_le_length (by omega)]
    congr 2
    omega

/-! ## What one call does to the table -/

/-- A change of rows that leaves what they are called by. -/
def KeepsNames (f : Row → Row) : Prop := ∀ r, (f r).key = r.key ∧ (f r).id = r.id

theorem KeepsNames.ite {f : Row → Row} (hf : KeepsNames f) (p : Row → Bool) :
    KeepsNames fun r => if p r then f r else r := by
  intro r
  dsimp only
  split
  · exact hf r
  · exact ⟨rfl, rfl⟩

/-- The table after a call: rows that keep their names, or one row more. -/
inductive TableChange (s : Store) (c : Call) : Table → Prop
  | mapped (f : Row → Row) (hf : KeepsNames f) : TableChange s c (s.table.map f)
  | made (w : Wish) (fresh : String) (hrequest : c.request = .start w fresh)
      (hnone : s.table.rowOf w.key = none) :
      TableChange s c (s.table ++ [Row.fresh fresh w.ruleId w.engine c.now])

theorem TableChange.same (s : Store) (c : Call) : TableChange s c s.table := by
  have hid := TableChange.mapped (s := s) (c := c) id fun _ => ⟨rfl, rfl⟩
  rwa [List.map_id] at hid

/-- **One call renames no row, and makes at most one.** -/
theorem tableChange_step (s : Store) (c : Call) : TableChange s c (s.step c).table := by
  obtain ⟨caller, now, request⟩ := c
  cases request with
  | start w fresh =>
    simp only [Store.step]
    rcases s.table.start_cases s.expire w now fresh with ⟨hnone, heq⟩ | ⟨_, _, _, heq⟩ | ⟨f, heq⟩
    · rw [heq]
      exact .made w fresh rfl hnone
    · rw [heq]
      exact .mapped _ (KeepsNames.ite (f := Row.taken now) (fun _ => ⟨rfl, rfl⟩) _)
    · rw [heq]
      exact .same s _
  | ping ids => exact .mapped _ (KeepsNames.ite (f := Row.alive now) (fun _ => ⟨rfl, rfl⟩) _)
  | finish k o =>
    simp only [Store.step]
    rcases s.table.finish_cases k o now with ⟨_, heq⟩ | ⟨_, history, _, _, heq⟩ | ⟨_, _, _, _, heq⟩
    · rw [heq]
      exact .same s _
    · rw [heq]
      exact .mapped _
        (KeepsNames.ite (f := Row.released now history) (fun _ => ⟨rfl, rfl⟩) _)
    · rw [heq]
      exact .same s _
  | setExpiry d => exact .same s _

/-- Keys and identifiers stand once in a table. -/
structure Table.IsKeyed (t : Table) : Prop where
  keys : (t.map Row.key).Nodup
  ids : (t.map (·.id)).Nodup

/-- Where keys stand once, every row is the row of its key. -/
theorem Table.rowOf_key {t : Table} (h : (t.map Row.key).Nodup) {r : Row} (hr : r ∈ t) :
    t.rowOf r.key = some r := by
  have hsome : (t.rowOf r.key).isSome = true :=
    List.find?_isSome.mpr ⟨r, hr, Row.isOf_iff.mpr rfl⟩
  obtain ⟨r', hr'⟩ := Option.isSome_iff_exists.mp hsome
  rw [hr', List.inj_on_of_nodup_map h (mem_of_rowOf hr') hr (key_of_rowOf hr')]

/-- Whenever a row is made, its identifier is that of no row there. -/
def HaveFreshIds (visits : List Visit) : Prop :=
  ∀ v ∈ visits, ∀ w fresh, v.call.request = .start w fresh → v.store.table.rowOf w.key = none →
    ∀ r ∈ v.store.table, r.id ≠ fresh

/-- One call keeps keys distinct, since a row is made only for a key without one. -/
theorem TableChange.nodup_keys {s : Store} {c : Call} {t' : Table} (hchange : TableChange s c t')
    (h : (s.table.map Row.key).Nodup) : (t'.map Row.key).Nodup := by
  cases hchange with
  | mapped f hf =>
    have hkeys : Row.key ∘ f = Row.key := funext fun r => (hf r).1
    rw [List.map_map, hkeys]
    exact h
  | made w fresh _ hnone =>
    rw [List.map_append, List.map_singleton, ← List.concat_eq_append, List.nodup_concat]
    refine ⟨fun hmem => ?_, h⟩
    obtain ⟨r, hr, hkey⟩ := List.mem_map.mp hmem
    have hrow := Table.rowOf_key h hr
    rw [hkey] at hrow
    rw [show s.table.rowOf w.key = some r from hrow] at hnone
    cases hnone

/-- One call keeps keys and identifiers distinct. -/
theorem Table.IsKeyed.step {s : Store} (h : s.table.IsKeyed) {c : Call}
    (hfresh : HaveFreshIds [⟨s, c⟩]) : (s.step c).table.IsKeyed := by
  have hchange := tableChange_step s c
  generalize (s.step c).table = t' at hchange ⊢
  refine ⟨hchange.nodup_keys h.keys, ?_⟩
  cases hchange with
  | mapped f hf =>
    have hids : (fun r : Row => r.id) ∘ f = fun r => r.id := funext fun r => (hf r).2
    rw [List.map_map, hids]
    exact h.ids
  | made w fresh hrequest hnone =>
    rw [List.map_append, List.map_singleton, ← List.concat_eq_append, List.nodup_concat]
    refine ⟨fun hmem => ?_, h.ids⟩
    obtain ⟨r, hr, hid⟩ := List.mem_map.mp hmem
    exact hfresh _ (List.mem_singleton_self _) w fresh hrequest hnone r hr hid

/-- A row stays, under its key and its identifier. -/
theorem exists_of_mem_step {s : Store} (c : Call) {r : Row} (hr : r ∈ s.table) :
    ∃ r' ∈ (s.step c).table, r'.key = r.key ∧ r'.id = r.id := by
  have hchange := tableChange_step s c
  generalize (s.step c).table = t' at hchange ⊢
  cases hchange with
  | mapped f hf => exact ⟨f r, List.mem_map_of_mem hr, hf r⟩
  | made w fresh _ _ => exact ⟨r, List.mem_append_left _ hr, rfl, rfl⟩

/-- A row stays under its key and its identifier for ever. -/
theorem exists_of_mem_run {s : Store} (calls : List Call) {r : Row} (hr : r ∈ s.table) :
    ∃ r' ∈ (s.run calls).table, r'.key = r.key ∧ r'.id = r.id := by
  induction calls generalizing s r with
  | nil => exact ⟨r, hr, rfl, rfl⟩
  | cons c calls ih =>
    obtain ⟨r', hr', hkey, hid⟩ := exists_of_mem_step c hr
    obtain ⟨r'', hr'', hkey', hid'⟩ := ih hr'
    exact ⟨r'', hr'', hkey'.trans hkey, hid'.trans hid⟩

/-! ## What one call does to a history -/

/-- The row of a key before and after a visit, as far as its history goes. -/
inductive HistoryChange (k : Key) (v : Visit) : Option Row → Option Row → Prop
  | absent (hstart : v.starts k = false) : HistoryChange k v none none
  | created (r : Row) (hstart : v.starts k = true) (hhistory : r.history = "[]") :
      HistoryChange k v none (some r)
  | kept (r r' : Row) (hhistory : r'.history = r.history) (hnone : v.outcome? k = none) :
      HistoryChange k v (some r) (some r')
  | appended (r r' : Row) (o : Outcome) (ho : v.outcome? k = some o)
      (hhistory : Table.appended r.history o = .ok r'.history) :
      HistoryChange k v (some r) (some r')

/-- A visit that does not concern a key. -/
theorem HistoryChange.same {k : Key} {v : Visit} (hstart : v.starts k = false)
    (hnone : v.outcome? k = none) (before : Option Row) : HistoryChange k v before before := by
  cases before with
  | none => exact .absent hstart
  | some r => exact .kept r r rfl hnone

theorem historyChange_start (k : Key) {s : Store} (caller : Nat) {now : Instant}
    (hnow : inCalendar now = true) (w : Wish) (fresh : String) :
    HistoryChange k ⟨s, ⟨caller, now, .start w fresh⟩⟩ (s.table.rowOf k)
      ((s.step ⟨caller, now, .start w fresh⟩).table.rowOf k) := by
  simp only [Store.step]
  by_cases hk : k = w.key
  · obtain rfl := hk
    rcases s.table.start_cases s.expire w now fresh with ⟨hnone, heq⟩ | ⟨r, hr, _, heq⟩ | ⟨f, heq⟩
    · -- the row that is made can be read, so that the start succeeds
      obtain ⟨started, ended, pinged, hrecord⟩ :=
        (Row.isSound_fresh hnow fresh w.ruleId w.engine).record isHistory_nil
      have hstart : Visit.starts w.key ⟨s, ⟨caller, now, .start w fresh⟩⟩ = true := by
        simp [Visit.starts, Visit.time, heq, hrecord, Except.isOk, Except.toBool]
      rw [heq, Table.rowOf_append_fresh hnone, hnone]
      exact .created _ hstart rfl
    · rw [heq, Table.rowOf_modify_taken hr, hr]
      exact .kept _ _ rfl rfl
    · rw [heq]
      exact .same (Visit.starts_of_error caller heq) rfl _
  · rw [Table.rowOf_start_of_ne s.table s.expire now fresh hk]
    exact .same (Visit.starts_of_ne s caller now fresh hk) rfl _

theorem historyChange_ping (k : Key) (s : Store) (caller : Nat) (now : Instant)
    (ids : List String) : HistoryChange k ⟨s, ⟨caller, now, .ping ids⟩⟩ (s.table.rowOf k)
      ((s.step ⟨caller, now, .ping ids⟩).table.rowOf k) := by
  simp only [Store.step, Table.rowOf_ping]
  cases s.table.rowOf k with
  | none => exact .absent rfl
  | some r =>
    refine .kept r _ ?_ rfl
    dsimp only
    split <;> rfl

theorem historyChange_finish (k : Key) {s : Store} (hs : s.table.IsSound) (caller : Nat)
    (now : Instant) (k' : Key) (o : Outcome) :
    HistoryChange k ⟨s, ⟨caller, now, .finish k' o⟩⟩ (s.table.rowOf k)
      ((s.step ⟨caller, now, .finish k' o⟩).table.rowOf k) := by
  simp only [Store.step]
  by_cases hk : k = k'
  · obtain rfl := hk
    cases hr : s.table.rowOf k with
    | none =>
      rw [Table.finish_none hr, hr]
      exact .absent rfl
    | some r =>
      obtain ⟨history, happ, heq⟩ := hs.isKept.finish_some hr o now
      rw [heq, Table.rowOf_modify_released hr]
      exact .appended r _ o (if_pos rfl) happ
  · rw [Table.rowOf_finish_of_ne s.table o now hk]
    have hnone : Visit.outcome? k ⟨s, ⟨caller, now, .finish k' o⟩⟩ = none := if_neg (Ne.symm hk)
    exact .same rfl hnone _

/-- **One call creates the history of a key, leaves it, or appends the outcome it carries.** -/
theorem historyChange_step (k : Key) {s : Store} (hs : s.table.IsSound) {c : Call}
    (hnow : inCalendar c.now = true) :
    HistoryChange k ⟨s, c⟩ (s.table.rowOf k) ((s.step c).table.rowOf k) := by
  obtain ⟨caller, now, request⟩ := c
  cases request with
  | start w fresh => exact historyChange_start k caller hnow w fresh
  | ping ids => exact historyChange_ping k s caller now ids
  | finish k' o => exact historyChange_finish k hs caller now k' o
  | setExpiry d => exact .same rfl rfl _

/-! ## The invariant -/

/-- A key has a row once its lock was taken, and the row has the last outcomes passed since. -/
structure Recounts (k : Key) (visits : List Visit) (s : Store) : Prop where
  found : (s.table.rowOf k).isSome = true ↔ ∃ v ∈ visits, v.starts k = true
  history : ∀ r, s.table.rowOf k = some r →
    IsHistory r.history (lastKept (outcomesSince k visits))

/-- A call within the calendar whose outcome, if it has one, has times of UTC. -/
structure Call.IsTimed (c : Call) : Prop where
  inCalendar : inCalendar c.now = true
  outcome : ∀ k o, c.request = .finish k o → o.IsTimed

theorem Call.IsTimed.isProper {c : Call} (h : c.IsTimed) : c.IsProper :=
  ⟨h.inCalendar, fun k o ho => ⟨o, Outcome.read_stored (h.outcome k o ho)⟩⟩

/-- The outcome of such a call is read back as it is. -/
theorem Call.IsTimed.read_outcome {s : Store} {c : Call} (h : c.IsTimed) {k : Key} {o : Outcome}
    (ho : Visit.outcome? k ⟨s, c⟩ = some o) : Outcome.read o.stored = .pass o := by
  obtain ⟨caller, now, request⟩ := c
  cases request with
  | finish k' o' =>
    simp only [Visit.outcome?] at ho
    split at ho
    · cases ho
      exact Outcome.read_stored (h.outcome k' o rfl)
    · cases ho
  | _ => cases ho

/-- **One call keeps the invariant.** -/
theorem Recounts.snoc {k : Key} {visits : List Visit} {s : Store} {c : Call}
    (h : Recounts k visits s) (hs : s.table.IsSound) (hc : c.IsTimed) :
    Recounts k (visits ++ [⟨s, c⟩]) (s.step c) := by
  have hchange := historyChange_step k hs hc.inCalendar
  -- the case split is on the row before and after, not on the request
  generalize hbefore : s.table.rowOf k = before at hchange
  generalize hafter : (s.step c).table.rowOf k = after at hchange
  have hfound := h.found
  rw [hbefore] at hfound
  -- a key that has a row before keeps it, and its lock was taken before
  have hlater : ∀ r, before = some r → ∃ v ∈ visits, v.starts k = true := by
    intro r hr
    rw [hr] at hfound
    exact hfound.mp rfl
  have hearlier : before = none → ∀ v ∈ visits, v.starts k = false := by
    intro hnone v hv
    rw [hnone] at hfound
    exact Bool.eq_false_iff.mpr fun hvs => absurd (hfound.mpr ⟨v, hv, hvs⟩) (by simp)
  cases hchange with
  | absent hstart =>
    refine ⟨?_, fun r hr => by rw [hafter] at hr; cases hr⟩
    rw [hafter]
    simpa [hstart] using hearlier rfl
  | created r hstart hhistory =>
    refine ⟨?_, fun r' hr' => ?_⟩
    · rw [hafter]
      exact iff_of_true rfl ⟨_, by simp, hstart⟩
    · obtain rfl := Option.some.inj (hafter.symm.trans hr')
      rw [outcomesSince_snoc_first (hearlier rfl) hstart, hhistory]
      exact isHistory_nil
  | kept r r' hhistory hnone =>
    obtain ⟨v, hv, hvs⟩ := hlater r rfl
    refine ⟨?_, fun r'' hr'' => ?_⟩
    · rw [hafter]
      exact iff_of_true rfl ⟨v, List.mem_append_left _ hv, hvs⟩
    · obtain rfl := Option.some.inj (hafter.symm.trans hr'')
      rw [outcomesSince_snoc ⟨v, hv, hvs⟩, hnone, Option.toList_none, List.append_nil, hhistory]
      exact h.history r hbefore
  | appended r r' o ho hhistory =>
    obtain ⟨v, hv, hvs⟩ := hlater r rfl
    refine ⟨?_, fun r'' hr'' => ?_⟩
    · rw [hafter]
      exact iff_of_true rfl ⟨v, List.mem_append_left _ hv, hvs⟩
    · obtain rfl := Option.some.inj (hafter.symm.trans hr'')
      rw [outcomesSince_snoc ⟨v, hv, hvs⟩, ho, Option.toList_some, ← lastKept_snoc]
      exact (h.history r hbefore).appended (hc.read_outcome ho) hhistory

/-- Runs of such calls. -/
theorem isSound_run (expire : Duration) {calls : List Call} (h : ∀ c ∈ calls, c.IsTimed) :
    ((Store.empty expire).run calls).table.IsSound :=
  Reachable.isSound ⟨expire, calls, fun c hc => (h c hc).isProper, rfl⟩

/-- The row of every key recounts its outcomes after every run. -/
theorem recounts_run (k : Key) (expire : Duration) {calls : List Call}
    (h : ∀ c ∈ calls, c.IsTimed) :
    Recounts k ((Store.empty expire).visits calls) ((Store.empty expire).run calls) := by
  induction calls using List.reverseRecOn with
  | nil =>
    refine ⟨?_, fun r hr => by cases hr⟩
    simp [Store.visits, Store.run, Store.empty, Table.rowOf, Table.find?]
  | append_singleton calls c ih =>
    have hcalls : ∀ c ∈ calls, c.IsTimed := fun c hc => h c (List.mem_append_left _ hc)
    rw [Store.run_append, Store.visits_append]
    exact (ih hcalls).snoc (isSound_run expire hcalls) (h c (by simp))

/-- Keys and identifiers are distinct after every run. -/
theorem isKeyed_run (expire : Duration) {calls : List Call}
    (hfresh : HaveFreshIds ((Store.empty expire).visits calls)) :
    ((Store.empty expire).run calls).table.IsKeyed := by
  induction calls using List.reverseRecOn with
  | nil => exact ⟨List.nodup_nil, List.nodup_nil⟩
  | append_singleton calls c ih =>
    rw [Store.visits_append] at hfresh
    rw [Store.run_append]
    exact (ih fun v hv => hfresh v (List.mem_append_left _ hv)).step
      fun v hv => hfresh v (List.mem_append_right _ hv)

/-- A start that fails changes nothing. -/
theorem step_of_failed_start {s : Store} (hs : s.table.IsSound) {c : Call}
    (hnow : inCalendar c.now = true) {w : Wish} {fresh : String} {f : Failure}
    (hrequest : c.request = .start w fresh)
    (hfail : (s.table.start s.expire w c.now fresh).1 = .error f) : s.step c = s := by
  rcases hs.start_cases hnow s.expire w fresh with ⟨f', heq⟩ | ⟨record, t', heq, _⟩
  · simp only [Store.step, hrequest, heq]
  · rw [heq] at hfail
    cases hfail

/-- **The table of locks stands for a map.**  After every run, with fresh identifiers for new rows:
there is one row for each key whose lock was ever taken and no other; identifiers are distinct, and
rows stay under theirs; the record of a row has, the oldest first, the last ten of the outcomes with
which its key was released since; and no start that failed has changed anything. -/
theorem store_represents (expire : Duration) {calls : List Call} (h : ∀ c ∈ calls, c.IsTimed)
    (hfresh : HaveFreshIds ((Store.empty expire).visits calls)) :
    (((Store.empty expire).run calls).table.map Row.key).Nodup ∧
    (((Store.empty expire).run calls).table.map (·.id)).Nodup ∧
    (∀ k, (∃ r ∈ ((Store.empty expire).run calls).table, r.key = k) ↔
      ∃ v ∈ (Store.empty expire).visits calls, v.starts k = true) ∧
    (∀ before after, calls = before ++ after → ∀ r ∈ ((Store.empty expire).run before).table,
      ∃ r' ∈ ((Store.empty expire).run calls).table, r'.key = r.key ∧ r'.id = r.id) ∧
    (∀ r ∈ ((Store.empty expire).run calls).table, ∃ record, r.record = .ok record ∧
      record.id = r.id ∧ record.ruleId = r.ruleId ∧ record.engine = r.engine ∧
      record.history = lastKept (outcomesSince r.key ((Store.empty expire).visits calls))) ∧
    (∀ v ∈ (Store.empty expire).visits calls, ∀ w fresh f, v.call.request = .start w fresh →
      (v.store.table.start v.store.expire w v.time fresh).1 = .error f →
      v.store.step v.call = v.store) := by
  have hkeyed := isKeyed_run expire hfresh
  refine ⟨hkeyed.keys, hkeyed.ids, fun k => ?_, fun before after hcalls r hr => ?_, fun r hr => ?_,
    fun v hv w fresh f hrequest hfail => ?_⟩
  · rw [← (recounts_run k expire h).found]
    constructor
    · rintro ⟨r, hr, rfl⟩
      rw [Table.rowOf_key hkeyed.keys hr]
      rfl
    · intro hsome
      obtain ⟨r, hr⟩ := Option.isSome_iff_exists.mp hsome
      exact ⟨r, Table.mem_of_rowOf hr, Table.key_of_rowOf hr⟩
  · rw [hcalls, Store.run_append]
    exact exists_of_mem_run after hr
  · have hhistory := (recounts_run r.key expire h).history r (Table.rowOf_key hkeyed.keys hr)
    obtain ⟨started, ended, pinged, hrecord⟩ := (isSound_run expire h r hr).record hhistory
    exact ⟨_, hrecord, rfl, rfl, rfl, rfl⟩
  · -- the store that was met is the result of a run of its own
    obtain ⟨earlier, later, hsplit⟩ := List.append_of_mem hv
    obtain ⟨before, after, hcalls, _, hstore⟩ := Store.visits_split hsplit
    have hbefore : ∀ c ∈ before, c.IsTimed := fun c hc =>
      h c (by rw [hcalls]; exact List.mem_append_left _ hc)
    have hsound := isSound_run expire hbefore
    rw [← hstore] at hsound
    have htimed := h v.call (by rw [hcalls]; simp)
    exact step_of_failed_start hsound htimed.inCalendar hrequest hfail

/-- The outcome with a number as its error. -/
def numberedOutcome (n : Nat) : Outcome := ⟨.utc 0, .utc 0, false, false, toString n, ""⟩

/-- A lock that is taken once and released eleven times. -/
def elevenReleases : List Call :=
  ⟨0, 0, .start ⟨0, "rule", "engine", false⟩ "id"⟩ ::
    (List.range 11).map fun n => ⟨0, 0, .finish ⟨"rule", "engine"⟩ (numberedOutcome n)⟩

theorem isTimed_elevenReleases : ∀ c ∈ elevenReleases, c.IsTimed := by
  intro c hc
  rcases List.mem_cons.mp hc with rfl | hc
  · exact ⟨by decide, fun k o h => by cases h⟩
  · obtain ⟨n, _, rfl⟩ := List.mem_map.mp hc
    have hnow : inCalendar 0 = true := by decide
    refine ⟨hnow, fun k o h => ?_⟩
    cases h
    exact ⟨⟨0, hnow, rfl⟩, ⟨0, hnow, rfl⟩⟩

theorem haveFreshIds_elevenReleases :
    HaveFreshIds ((Store.empty 0).visits elevenReleases) := by
  intro v hv w fresh hrequest _ r hr
  rcases List.mem_cons.mp hv with rfl | hv
  · cases hr
  · obtain ⟨n, _, hcall⟩ := List.mem_map.mp (Store.call_mem_of_visits hv)
    rw [← hcall] at hrequest
    cases hrequest

/-- Of eleven outcomes the first one is dropped. -/
theorem store_represents_elevenReleases :
    ∃ r ∈ ((Store.empty 0).run elevenReleases).table, ∃ record, r.record = .ok record ∧
      record.history = (List.range' 1 10).map numberedOutcome := by
  obtain ⟨_, _, hrows, _, hrecords, _⟩ :=
    store_represents 0 isTimed_elevenReleases haveFreshIds_elevenReleases
  obtain ⟨r, hr, hkey⟩ := (hrows ⟨"rule", "engine"⟩).mpr ⟨_, List.mem_cons_self .., rfl⟩
  obtain ⟨record, hrecord, _, _, _, hhistory⟩ := hrecords r hr
  rw [hkey] at hhistory
  exact ⟨r, hr, record, hrecord, hhistory⟩

end AccessRules.Lock
