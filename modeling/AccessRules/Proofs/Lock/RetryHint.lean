import AccessRules.Proofs.Lock.Release
import AccessRules.Proofs.Lock.Representation

/-!
# When to come again

**Program** — `Table.start` refuses a wish for a lock that gave a sign of life too recently, and
says how long to wait (`Wish.retryAfter`).  The clock is read twice: at `now` for the decision, and
at `later` for the wait.

**Spec** — for a lock that was released the wait is exact, counted from the second reading
(`start_iff_after_hint`): as long as no one touches the lock, the same wish is granted at every
instant after the wait is over and refused at every instant before, with what is then left of the
wait.  It is meant never to be negative, but it is if the lock becomes free between the two readings
(`not_hint_nonneg`).

**Crux** — refusal and grant read the same stored sign of life, and so does the wait: added to the
second reading it gives the instant from which on the row is free, `after` behind that sign of life
(`IsSound.hint_of_refused`), which no longer depends on the clock.  What is left to show is that
calls that do not touch a lock leave its row (`rowOf_run_of_untouched`).
-/

namespace AccessRules.Lock

open Calendar

/-! ## Calls that do not touch a lock -/

/-- A call that does not touch the lock of a key leaves its row. -/
theorem rowOf_step_of_untouched {k : Key} {s : Store} (hs : s.table.IsSound) {c : Call}
    (hnow : inCalendar c.now = true) (h : Visit.touches k ⟨s, c⟩ = false) :
    (s.step c).table.rowOf k = s.table.rowOf k := by
  simp only [Visit.touches, Bool.or_eq_false_iff] at h
  obtain ⟨⟨hstart, hping⟩, hfinish⟩ := h
  obtain ⟨caller, now, request⟩ := c
  cases request with
  | start w fresh =>
    rcases hs.start_cases hnow s.expire w fresh with ⟨f, heq⟩ | ⟨record, t', heq, _, _, _, htaken⟩
    · simp only [Store.step, heq]
    · -- a start that succeeds takes another lock than this one
      have hk : k ≠ w.key := by
        rintro rfl
        simp [Visit.starts, Visit.time, heq, Except.isOk, Except.toBool] at hstart
      simp only [Store.step, heq]
      exact htaken.others k hk
  | ping ids =>
    simp only [Store.step, Table.rowOf_ping]
    simp only [Visit.pings] at hping
    cases hr : s.table.rowOf k with
    | none => rfl
    | some r =>
      rw [hr, Option.any_some] at hping
      rw [Option.map_some, if_neg (Bool.eq_false_iff.mp hping)]
  | finish k' o =>
    have hk : k ≠ k' := by
      rintro rfl
      simp [Visit.finishes] at hfinish
    exact s.table.rowOf_finish_of_ne o now hk
  | setExpiry d => rfl

/-- **Calls that do not touch the lock of a key leave its row.** -/
theorem rowOf_run_of_untouched {k : Key} {s : Store} (hs : s.table.IsSound) {calls : List Call}
    (hcalls : ∀ c ∈ calls, c.IsProper) (h : ∀ v ∈ s.visits calls, v.touches k = false) :
    (s.run calls).table.rowOf k = s.table.rowOf k := by
  induction calls generalizing s with
  | nil => rfl
  | cons c calls ih =>
    rw [List.forall_mem_cons] at hcalls
    rw [Store.visits, List.forall_mem_cons] at h
    have hrest := ih (isSound_step hs hcalls.1) hcalls.2 h.2
    exact hrest.trans (rowOf_step_of_untouched hs hcalls.1.inCalendar h.1)

/-! ## Wishes for a lock that was released -/

variable {w : Wish} {expire : Duration} {now later p : Instant} {t : Table} {r : Row}
  {hint : Duration}

/-- A refusal says one hint only. -/
theorem Wish.refusal_injective {hint' : Duration} (h : w.refusal hint = w.refusal hint') :
    hint = hint' := by
  have hcause := congrArg Fault.cause (Failure.fault.inj h)
  exact (Cause.locked.inj hcause).2.2

/-- That it cannot be said whether a row is free is no refusal. -/
theorem Wish.mayTake_ne_refusal {running : Bool} {pinged : Moment} :
    w.mayTake expire running pinged now ≠ .error (w.refusal hint) := by
  intro h
  rw [mayTake] at h
  split at h
  · cases h
  · split at h <;> cases h

/-- That it cannot be said when to come again is no refusal. -/
theorem Wish.retryAfter_ne_refusal {running : Bool} {pinged : Moment} :
    w.retryAfter running pinged later ≠ .error (w.refusal hint) := by
  intro h
  rw [retryAfter] at h
  split at h
  · cases h
  · dsimp only at h
    split at h <;> cases h

/-- **What a refusal says of the row it is about.** -/
theorem Table.IsSound.of_refused (h : t.IsSound) (hrow : t.rowOf w.key = some r) {pinged : Moment}
    (hread : readTime r.pinged = .ok pinged) (hnow : inCalendar now = true) {fresh : String}
    (hrefused : (t.start expire w now fresh later).1 = .error (w.refusal hint)) :
    w.mayTake expire r.running pinged now = .ok false ∧
      w.retryAfter r.running pinged later = .ok hint := by
  rw [start_of_rowOf hrow hread] at hrefused
  cases hmay : w.mayTake expire r.running pinged now with
  | error f =>
    rw [hmay] at hrefused
    obtain rfl : f = w.refusal hint := Except.error.inj hrefused
    exact absurd hmay Wish.mayTake_ne_refusal
  | ok free =>
    rw [hmay] at hrefused
    cases free with
    | true =>
      -- the lock of a free row is taken
      obtain ⟨record, hrecord⟩ := (h r (mem_of_rowOf hrow)).taken_record hnow
      exact absurd (hrecord.symm.trans hrefused) nofun
    | false =>
      cases hwait : w.retryAfter r.running pinged later with
      | error f =>
        simp only [hwait] at hrefused
        obtain rfl : f = w.refusal hint := Except.error.inj hrefused
        exact absurd hwait Wish.retryAfter_ne_refusal
      | ok hint' =>
        simp only [hwait] at hrefused
        rw [Wish.refusal_injective (Except.error.inj hrefused)]
        exact ⟨rfl, rfl⟩

/-! ### Released rows -/

/-- A released row is free for an unforced wish once `after` has passed. -/
theorem Wish.mayTake_released (hforce : w.force = false)
    (hback : inCalendar (now - w.after) = true) :
    w.mayTake expire false (.utc p) now = .ok (decide (p + w.after < now)) := by
  have hshift : (Moment.utc now).shift? (-(w.protection expire false)) =
      some (.utc (now - w.after)) := by
    rw [Moment.shift?]
    exact if_pos hback
  have hlimit : p < now - w.after ↔ p + w.after < now := by lia
  simp only [mayTake, hforce, Bool.false_eq_true, if_false, hshift, Moment.instant_utc, hlimit]

/-- It was not free before. -/
theorem Wish.le_of_mayTake_released (hforce : w.force = false)
    (h : w.mayTake expire false (.utc p) now = .ok false) : now ≤ p + w.after := by
  by_cases hback : inCalendar (now - w.after) = true
  · rw [mayTake_released hforce hback, Except.ok.injEq, decide_eq_false_iff_not] at h
    exact Int.not_lt.mp h
  · have hshift : (Moment.utc now).shift? (-(w.protection expire false)) = none := by
      rw [Moment.shift?]
      exact if_neg hback
    simp only [mayTake, hforce, Bool.false_eq_true, if_false, hshift] at h
    cases h

/-- What is left to wait for a released row, counted from its last sign of life. -/
theorem Wish.retryAfter_released_eq_ok_iff :
    w.retryAfter false (.utc p) later = .ok hint ↔
      hint = p + w.after - later ∧ Duration.inRange hint = true := by
  have hwait : w.after - (later - p) = p + w.after - later := by lia
  rw [retryAfter, if_neg Bool.false_ne_true, Moment.instant_utc]
  simp only [hwait]
  split
  · next hrange =>
    rw [Except.ok.injEq]
    refine ⟨?_, fun h => h.1.symm⟩
    rintro rfl
    exact ⟨rfl, hrange⟩
  · next hrange =>
    refine ⟨nofun, ?_⟩
    rintro ⟨rfl, h⟩
    exact absurd h hrange

namespace Table

variable (expire later) in
/-- **A released row is taken if `after` has passed since its last sign of life, and only then.** -/
theorem IsSound.start_released_iff (h : t.IsSound) (hrow : t.rowOf w.key = some r)
    (hreleased : r.running = false) (hread : readTime r.pinged = .ok (.utc p))
    (hforce : w.force = false) (hnow : inCalendar now = true)
    (hback : inCalendar (now - w.after) = true) (fresh : String) :
    (t.start expire w now fresh later).1.isOk = true ↔ p + w.after < now := by
  rw [start_of_rowOf hrow hread, hreleased, Wish.mayTake_released hforce hback]
  by_cases hlate : p + w.after < now
  · obtain ⟨record, hrecord⟩ := (h r (mem_of_rowOf hrow)).taken_record hnow
    simp [hlate, hrecord, Except.isOk, Except.toBool]
  · cases w.retryAfter false (.utc p) later <;> simp [hlate, Except.isOk, Except.toBool]

/-- So a call for it takes the lock. -/
theorem IsSound.starts_iff {s : Store} (h : s.table.IsSound) (hrow : s.table.rowOf w.key = some r)
    (hreleased : r.running = false) (hread : readTime r.pinged = .ok (.utc p))
    (hforce : w.force = false) {c : Call} {fresh : String} (hrequest : c.request = .start w fresh)
    (hnow : inCalendar c.now = true) (hback : inCalendar (c.now - w.after) = true) :
    Visit.starts w.key ⟨s, c⟩ = true ↔ p + w.after < c.now := by
  simp only [Visit.starts, Visit.time, hrequest, beq_self_eq_true, Bool.true_and]
  exact h.start_released_iff _ _ hrow hreleased hread hforce hnow hback fresh

variable (expire) in
/-- Up to then it is refused, with what is left to wait. -/
theorem start_of_released (hrow : t.rowOf w.key = some r) (hreleased : r.running = false)
    (hread : readTime r.pinged = .ok (.utc p)) (hforce : w.force = false)
    (hback : inCalendar (now - w.after) = true) (hearly : now ≤ p + w.after)
    (hrange : Duration.inRange (p + w.after - later) = true) (fresh : String) :
    t.start expire w now fresh later = (.error (w.refusal (p + w.after - later)), t) := by
  rw [start_of_rowOf hrow hread, hreleased, Wish.mayTake_released hforce hback,
    decide_eq_false (Int.not_lt.mpr hearly),
    Wish.retryAfter_released_eq_ok_iff.mpr ⟨rfl, hrange⟩]

/-- **The hint of a refusal leads to the instant from which on the row is free**, `after` behind its
last sign of life; and nothing else comes of a refusal. -/
theorem IsSound.hint_of_refused (h : t.IsSound) (hrow : t.rowOf w.key = some r)
    (hreleased : r.running = false) (hread : readTime r.pinged = .ok (.utc p))
    (hforce : w.force = false) (hnow : inCalendar now = true) {fresh : String}
    (hrefused : (t.start expire w now fresh later).1 = .error (w.refusal hint)) :
    later + hint = p + w.after ∧ now ≤ p + w.after ∧ (t.start expire w now fresh later).2 = t := by
  obtain ⟨hmay, hwait⟩ := h.of_refused hrow hread hnow hrefused
  have hkept : (t.start expire w now fresh later).2 = t := by
    rw [start_of_rowOf hrow hread, hmay, hwait]
  rw [hreleased] at hmay hwait
  obtain ⟨rfl, _⟩ := Wish.retryAfter_released_eq_ok_iff.mp hwait
  -- the row was not free, so the wait was not over
  exact ⟨by lia, Wish.le_of_mayTake_released hforce hmay, hkept⟩

end Table

/-- The row of a key, if it has one, is not running. -/
theorem Store.not_running_of_rowOf {s : Store} {k : Key} {r : Row} (h : s.isRunning k = false)
    (hrow : s.table.rowOf k = some r) : r.running = false := by
  rw [isRunning, hrow, Option.any_some] at h
  exact h

/-- **The hint for a released lock is exact, counted from when the clock was read for it.**  A refusal
changes nothing.  As long as no one touches the lock, the same wish, made again where `after` does
not reach back before the calendar, is granted after the wait is over, and only then: before, it is
refused with what is left of the wait.  The hint is not negative if both readings of the clock are the
same; if they are not, it is not negative just if the wish would be refused at the second, too. -/
theorem start_iff_after_hint {s : Store} (hs : Reachable s.table) {w : Wish}
    (hforce : w.force = false) (hreleased : s.isRunning w.key = false) {now later : Instant}
    (hnow : inCalendar now = true) {fresh : String} {hint : Duration}
    (hrefused : (s.table.start s.expire w now fresh later).1 = .error (w.refusal hint)) :
    (s.table.start s.expire w now fresh later).2 = s.table ∧
    (∀ between : List Call, (∀ b ∈ between, b.IsProper) →
      (∀ v ∈ s.visits between, v.touches w.key = false) →
      ∀ c fresh', c.request = .start w fresh' → inCalendar c.now = true →
        inCalendar (c.now - w.after) = true →
        (Visit.starts w.key ⟨s.run between, c⟩ = true ↔ later + hint < c.now) ∧
        ∀ later', c.now ≤ later + hint → Duration.inRange (later + hint - later') = true →
          ((s.run between).table.start (s.run between).expire w c.now fresh' later').1 =
            .error (w.refusal (later + hint - later'))) ∧
    (later = now → 0 ≤ hint) ∧
    ∀ c fresh', c.request = .start w fresh' → c.now = later → inCalendar later = true →
      inCalendar (later - w.after) = true → (0 ≤ hint ↔ Visit.starts w.key ⟨s, c⟩ = false) := by
  -- a wish that is refused found a row
  have hsound := hs.isSound
  obtain ⟨r, hrow⟩ : ∃ r, s.table.rowOf w.key = some r := by
    cases hrow : s.table.rowOf w.key with
    | some r => exact ⟨r, rfl⟩
    | none =>
      have hmade : ∃ record, (s.table.start s.expire w now fresh later).1 = .ok record :=
        Table.start_of_none hrow hnow
      obtain ⟨record, hrecord⟩ := hmade
      exact absurd (hrecord.symm.trans hrefused) nofun
  obtain ⟨p, hp, hread⟩ := (hsound r (Table.mem_of_rowOf hrow)).readTime
  have hrunning := Store.not_running_of_rowOf hreleased hrow
  obtain ⟨hfree, hearly, hkept⟩ := hsound.hint_of_refused hrow hrunning hread hforce hnow hrefused
  refine ⟨hkept, ?_, fun hsame => by lia, ?_⟩
  · intro between hproper huntouched c fresh' hrequest hnow' hback
    -- what came in between left the row
    have hrow' := (rowOf_run_of_untouched hsound hproper huntouched).trans hrow
    rw [hfree]
    refine ⟨?_, fun later' hearly' hrange => ?_⟩
    · exact (isSound_run_of_isSound hsound hproper).starts_iff hrow' hrunning hread hforce hrequest
        hnow' hback
    · rw [Table.start_of_released _ hrow' hrunning hread hforce hback hearly' hrange]
  · rintro c fresh' hrequest rfl hnow' hback
    rw [← Bool.not_eq_true, hsound.starts_iff hrow hrunning hread hforce hrequest hnow' hback]
    lia

theorem isProper_lateRelease : ∀ c ∈ lateRelease, c.IsProper := by
  intro c hc
  refine Call.IsTimed.isProper ⟨?_, fun k o ho => ?_⟩
  · revert c
    decide
  · simp only [lateRelease, List.mem_cons, List.not_mem_nil, or_false] at hc
    rcases hc with rfl | rfl | rfl <;> cases ho
    exact ⟨⟨0, by decide, rfl⟩, ⟨30, by decide, rfl⟩⟩

/-- A wish for the lock that was released. -/
def earlyWish : Wish := ⟨5, "rule", "engine", false⟩

/-- Another worker with that wish. -/
def earlyCall (now : Instant) : Call := ⟨3, now, .start earlyWish "c"⟩

theorem reachable_lateRelease : Reachable ((Store.empty 7).run lateRelease).table :=
  ⟨7, lateRelease, isProper_lateRelease, rfl⟩

theorem released_lateRelease :
    ((Store.empty 7).run lateRelease).isRunning earlyWish.key = false := by decide +kernel

/-- The wish is refused one microsecond after the release; how long to wait depends on when the
clock is read again. -/
theorem refused_lateRelease {later : Instant}
    (hrange : Duration.inRange (30 + earlyWish.after - later) = true) :
    (((Store.empty 7).run lateRelease).table.start 7 earlyWish 31 "c" later).1 =
      .error (earlyWish.refusal (30 + earlyWish.after - later)) := by
  have hpinged : (((Store.empty 7).run lateRelease).table.rowOf earlyWish.key).map (·.pinged) =
      some (storedText 30) := by decide +kernel
  obtain ⟨r, hrow, hr⟩ := Option.map_eq_some_iff.mp hpinged
  have hread : readTime r.pinged = .ok (.utc 30) := by
    rw [hr]
    exact readTime_storedText (by decide)
  rw [Table.start_of_released _ hrow (Store.not_running_of_rowOf released_lateRelease hrow) hread
    rfl (by decide) (by decide) hrange]

/-- Two microseconds after the first reading of the clock two are left to wait; after that the lock
is free, although the expiry was changed in the meantime. -/
theorem start_iff_after_hint_lateRelease :
    (((Store.empty 7).run lateRelease).table.start 7 earlyWish 31 "c" 33).1 =
        .error (earlyWish.refusal 2) ∧
      Visit.starts earlyWish.key
        ⟨((Store.empty 7).run lateRelease).run [⟨1, 34, .setExpiry 90⟩], earlyCall 36⟩ = true := by
  have hrefused : (((Store.empty 7).run lateRelease).table.start 7 earlyWish 31 "c" 33).1 =
      .error (earlyWish.refusal 2) := refused_lateRelease (by decide)
  refine ⟨hrefused, ?_⟩
  obtain ⟨_, hexact, _⟩ := start_iff_after_hint reachable_lateRelease rfl released_lateRelease
    (by decide) hrefused
  refine ((hexact [⟨1, 34, .setExpiry 90⟩] ?_ ?_ (earlyCall 36) "c" rfl ?_ ?_).1).mpr ?_
  · intro b hb
    obtain rfl := List.mem_singleton.mp hb
    exact ⟨by decide, fun k o ho => by cases ho⟩
  · intro v hv
    obtain rfl := List.mem_singleton.mp hv
    rfl
  · decide
  · decide
  · decide

/-- A wish is told to come again a microsecond ago, if the clock is read for that only after the wait
was over. -/
theorem not_hint_nonneg : ¬ ∀ (s : Store) (w : Wish) (now later : Instant) (fresh : String)
    (hint : Duration), Reachable s.table → w.force = false → s.isRunning w.key = false →
    inCalendar now = true → inCalendar later = true → now ≤ later →
    (s.table.start s.expire w now fresh later).1 = .error (w.refusal hint) → 0 ≤ hint := by
  intro hall
  have hrefused : (((Store.empty 7).run lateRelease).table.start 7 earlyWish 31 "c" 36).1 =
      .error (earlyWish.refusal (-1)) := refused_lateRelease (by decide)
  have hnonneg := hall _ _ _ _ _ _ reachable_lateRelease rfl released_lateRelease
    (by decide) (by decide) (by decide) hrefused
  exact absurd hnonneg (by decide)

end AccessRules.Lock
