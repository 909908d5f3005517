import AccessRules.Proofs.Lock.Operations

/-!
# What one engine sees of the locks

**Program** — `Table.start` and `Table.finish`, called for one of several engines that share a
table.

**Spec** — an engine *sees* the rows that belong to it, and of a row that was made since some
earlier table everything but its identifier (`Table.seenBy`).

  1. What a call for an engine answers, and what the engine sees afterwards, is decided by what it
     saw before (`start_seenBy`, `finish_seenBy`).
  2. A call for another engine changes nothing that it sees (`seenBy_start_of_ne`,
     `seenBy_finish_of_ne`).
  3. Tables in which every engine sees the same have the same rows, up to the identifiers of rows
     that were made since (`SameSince.of_seenBy`).

**Crux** — no row is looked for by its identifier, so leaving it out commutes with all that is done
to rows.  Only a row that is made must not get back an identifier that was left out: a key that had
a row in the earlier table still has one (`Table.Extends`).
-/

namespace AccessRules.Lock

open Calendar

/-- A record without its identifier. -/
def Record.unnamed (r : Record) : Record := { r with id := "" }

variable {earlier : Table}

/-! ## Rows made since an earlier table -/

namespace Row

/-- A row, without its identifier if its key had no row in an earlier table. -/
def since (earlier : Table) (r : Row) : Row :=
  { r with id := if (earlier.rowOf r.key).isSome then r.id else "" }

/-- The record of a row says the same, but for its identifier. -/
theorem record_since (r : Row) :
    (r.since earlier).record.map Record.unnamed = r.record.map Record.unnamed := by
  unfold record
  simp only [since]
  -- none of the texts that are read is the identifier
  rcases readTime r.started with f | started
  · rfl
  rcases r.ended.mapM readTime with f | ended
  · rfl
  rcases readTime r.pinged with f | pinged
  · rfl
  rcases readHistory r.history with f | history
  · rfl
  · rfl

end Row

namespace Table

/-- What an engine sees of a table, if it knows the identifiers of an earlier table. -/
def seenBy (t earlier : Table) (engine : String) : Table :=
  (t.filter (·.engine == engine)).map (Row.since earlier)

/-- Every key with a row in an earlier table has one. -/
def Extends (t earlier : Table) : Prop :=
  ∀ k, (earlier.rowOf k).isSome = true → (t.rowOf k).isSome = true

/-- The same rows, up to identifiers that were given since an earlier table. -/
def SameSince (earlier t t' : Table) : Prop :=
  (t.map (Row.since earlier)).Perm (t'.map (Row.since earlier))

variable {t : Table} {expire : Duration} {now : Instant}

/-! ## Looking and changing -/

/-- An engine sees the row of each of its keys. -/
theorem rowOf_seenBy (t earlier : Table) (k : Key) :
    rowOf (t.seenBy earlier k.engine) k = (t.rowOf k).map (Row.since earlier) := by
  have hfilter : rowOf (t.filter (·.engine == k.engine)) k = t.rowOf k := by
    rw [rowOf, find?, List.find?_filter]
    congr 1
    funext r
    simp only [Row.isOf]
    grind
  rw [seenBy, rowOf_map (f := Row.since earlier) fun _ => rfl, hfilter]

theorem filter_modify {f : Row → Row} (hf : ∀ r, (f r).key = r.key) (t : Table) (k : Key)
    (engine : String) :
    (t.modify k.ruleId k.engine f).filter (·.engine == engine) =
      modify (t.filter (·.engine == engine)) k.ruleId k.engine f := by
  rw [modify, List.filter_map]
  congr 2
  funext r
  have hengine : (f r).engine = r.engine := congrArg Key.engine (hf r)
  simp only [Function.comp]
  split <;> simp [hengine]

/-- What is done to the rows of a key is done to those that its engine sees. -/
theorem seenBy_modify {f : Row → Row} (hf : ∀ r, (f r).key = r.key)
    (hsince : ∀ r, (f r).since earlier = f (r.since earlier)) (t : Table) (k : Key) :
    seenBy (t.modify k.ruleId k.engine f) earlier k.engine =
      modify (t.seenBy earlier k.engine) k.ruleId k.engine f := by
  rw [seenBy, filter_modify hf, seenBy, modify, modify, List.map_map, List.map_map]
  congr 1
  funext r
  have hof : (r.since earlier).isOf k.ruleId k.engine = r.isOf k.ruleId k.engine := rfl
  simp only [Function.comp, hof]
  split
  · exact hsince r
  · rfl

/-- What is done to the rows of a key is seen by no other engine. -/
theorem seenBy_modify_of_ne {f : Row → Row} (hf : ∀ r, (f r).key = r.key) (t : Table) (k : Key)
    {engine : String} (hne : engine ≠ k.engine) :
    seenBy (t.modify k.ruleId k.engine f) earlier engine = t.seenBy earlier engine := by
  have hsame : modify (t.filter (·.engine == engine)) k.ruleId k.engine f =
      t.filter (·.engine == engine) := by
    refine (List.map_congr_left fun r hr => if_neg fun hof => hne ?_).trans (List.map_id _)
    have hengine : r.engine = engine := beq_iff_eq.mp (List.mem_filter.mp hr).2
    exact hengine.symm.trans (congrArg Key.engine (Row.isOf_iff.mp hof))
  rw [seenBy, filter_modify hf, hsame, seenBy]

/-- Where rows were changed, every key still has the row it had. -/
theorem Extends.modify (h : t.Extends earlier) {f : Row → Row} (hf : ∀ r, (f r).key = r.key)
    (k : Key) : (t.modify k.ruleId k.engine f).Extends earlier := by
  intro k' hk'
  by_cases hkey : k' = k
  · subst hkey
    rw [rowOf_modify hf, Option.isSome_map]
    exact h k' hk'
  · rw [rowOf_modify_of_ne hf t hkey]
    exact h k' hk'

theorem seenBy_append (t : Table) (r : Row) (engine : String) :
    seenBy (t ++ [r]) earlier engine =
      t.seenBy earlier engine ++ if r.engine = engine then [r.since earlier] else [] := by
  rw [seenBy, List.filter_append, List.map_append]
  split
  · next h => simp [seenBy, h]
  · next h => simp [seenBy, h]

/-! ## Taking a lock -/

/-- A row that is made for a key without one has an identifier that was given since. -/
theorem Extends.since_fresh (h : t.Extends earlier) {w : Wish} (hnone : t.rowOf w.key = none)
    (fresh : String) (now : Instant) : (Row.fresh fresh w.ruleId w.engine now).since earlier =
      Row.fresh "" w.ruleId w.engine now := by
  have hearlier : ¬ (earlier.rowOf w.key).isSome = true := by
    intro hsome
    have hstill := h w.key hsome
    rw [hnone] at hstill
    cases hstill
  show { Row.fresh fresh w.ruleId w.engine now with
    id := if (earlier.rowOf w.key).isSome then fresh else "" } = _
  rw [if_neg hearlier]
  rfl

/-- **Taking a lock** answers by what its engine sees, and changes what it sees as if that were the
whole table. -/
theorem start_seenBy (h : t.Extends earlier) (w : Wish) (fresh : String) :
    (t.start expire w now fresh).1.map Record.unnamed =
        ((t.seenBy earlier w.engine).start expire w now "").1.map Record.unnamed ∧
      (t.start expire w now fresh).2.seenBy earlier w.engine =
        ((t.seenBy earlier w.engine).start expire w now "").2 := by
  have hrow := t.rowOf_seenBy earlier w.key
  cases hknown : t.rowOf w.key with
  | none =>
    have hnew := h.since_fresh hknown fresh now
    rw [hknown] at hrow
    rw [start, start, show t.find? w.ruleId w.engine = none from hknown,
      show (t.seenBy earlier w.engine).find? w.ruleId w.engine = none from hrow]
    constructor
    · dsimp only
      rw [← hnew, Row.record_since]
    · have hown : (Row.fresh fresh w.ruleId w.engine now).engine = w.engine := rfl
      dsimp only
      rw [seenBy_append, hnew, if_pos hown]
  | some r =>
    rw [hknown] at hrow
    rw [start, start, show t.find? w.ruleId w.engine = some r from hknown,
      show (t.seenBy earlier w.engine).find? w.ruleId w.engine = some (r.since earlier) from hrow]
    have hpinged : (r.since earlier).pinged = r.pinged := rfl
    have hrunning : (r.since earlier).running = r.running := rfl
    -- so the row is free for the wish wherever it is
    simp only [hpinged, hrunning]
    split
    · constructor
      · exact (r.taken now).record_since.symm
      · exact seenBy_modify (f := Row.taken now) (fun _ => rfl) (fun _ => rfl) t w.key
    · exact ⟨rfl, rfl⟩

/-- Taking a lock is seen by no other engine. -/
theorem seenBy_start_of_ne (t : Table) (expire : Duration) (w : Wish) (now : Instant)
    (fresh : String) {engine : String} (hne : engine ≠ w.engine) :
    (t.start expire w now fresh).2.seenBy earlier engine = t.seenBy earlier engine := by
  rcases t.start_cases expire w now fresh with ⟨_, heq⟩ | ⟨_, _, _, heq⟩ | ⟨_, heq⟩
  · rw [heq]
    have hother : (Row.fresh fresh w.ruleId w.engine now).engine ≠ engine := hne.symm
    rw [seenBy_append, if_neg hother, List.append_nil]
  · rw [heq]
    exact seenBy_modify_of_ne (f := Row.taken now) (fun _ => rfl) t w.key hne
  · rw [heq]

/-- Where a lock was taken, every key still has the row it had. -/
theorem Extends.start (h : t.Extends earlier) (expire : Duration) (w : Wish) (now : Instant)
    (fresh : String) : (t.start expire w now fresh).2.Extends earlier := by
  rcases t.start_cases expire w now fresh with ⟨_, heq⟩ | ⟨_, _, _, heq⟩ | ⟨_, heq⟩
  · intro k hk
    rw [heq, rowOf_append_singleton, Option.isSome_or, h k hk, Bool.true_or]
  · rw [heq]
    exact h.modify (f := Row.taken now) (fun _ => rfl) w.key
  · rw [heq]
    exact h

/-! ## Releasing a lock -/

/-- **Releasing a lock** changes what its engine sees as if that were the whole table. -/
theorem finish_seenBy (t : Table) (k : Key) (o : Outcome) (now : Instant) :
    (t.finish k.ruleId k.engine o now).2.seenBy earlier k.engine =
      ((t.seenBy earlier k.engine).finish k.ruleId k.engine o now).2 := by
  have hrow := t.rowOf_seenBy earlier k
  cases hknown : t.rowOf k with
  | none =>
    rw [hknown] at hrow
    rw [finish_none hknown, finish_none hrow]
  | some r =>
    rw [hknown] at hrow
    rw [finish, finish, show t.find? k.ruleId k.engine = some r from hknown,
      show (t.seenBy earlier k.engine).find? k.ruleId k.engine = some (r.since earlier) from hrow]
    have hhistory : (r.since earlier).history = r.history := rfl
    simp only [hhistory]
    split
    · next history _ =>
      exact seenBy_modify (f := Row.released now history) (fun _ => rfl) (fun _ => rfl) t k
    · rfl

/-- Releasing a lock is seen by no other engine. -/
theorem seenBy_finish_of_ne (t : Table) (k : Key) (o : Outcome) (now : Instant) {engine : String}
    (hne : engine ≠ k.engine) :
    (t.finish k.ruleId k.engine o now).2.seenBy earlier engine = t.seenBy earlier engine := by
  rcases t.finish_cases k o now with ⟨_, heq⟩ | ⟨_, history, _, _, heq⟩ | ⟨_, _, _, _, heq⟩
  · rw [heq]
  · rw [heq]
    exact seenBy_modify_of_ne (f := Row.released now history) (fun _ => rfl) t k hne
  · rw [heq]

/-- Where a lock was released, every key still has the row it had. -/
theorem Extends.finish (h : t.Extends earlier) (k : Key) (o : Outcome) (now : Instant) :
    (t.finish k.ruleId k.engine o now).2.Extends earlier := by
  rcases t.finish_cases k o now with ⟨_, heq⟩ | ⟨_, history, _, _, heq⟩ | ⟨_, _, _, _, heq⟩
  · rw [heq]
    exact h
  · rw [heq]
    exact h.modify (f := Row.released now history) (fun _ => rfl) k
  · rw [heq]
    exact h

/-! ## Tables that look the same to every engine -/

/-- **Tables in which every engine sees the same** have the same rows, up to identifiers that were
given since. -/
theorem SameSince.of_seenBy {t' : Table}
    (h : ∀ engine, t.seenBy earlier engine = t'.seenBy earlier engine) :
    SameSince earlier t t' := by
  have hcount : ∀ (t : Table) (r : Row),
      (t.map (Row.since earlier)).count r = (t.seenBy earlier r.engine).count r := by
    intro t r
    have hfilter : t.seenBy earlier r.engine =
        (t.map (Row.since earlier)).filter (·.engine == r.engine) := by
      rw [List.filter_map]
      rfl
    rw [hfilter]
    exact (List.count_filter (p := fun r' : Row => r'.engine == r.engine)
      (beq_self_eq_true r.engine)).symm
  refine List.perm_iff_count.mpr fun r => ?_
  rw [hcount t r, hcount t' r, h]

end Table

end AccessRules.Lock
