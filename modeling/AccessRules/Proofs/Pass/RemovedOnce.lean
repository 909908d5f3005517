import Mathlib.Data.List.Chain
import AccessRules.Proofs.Pass.Dealing

/-!
# A removal is carried out once

**Program** — passes over rules (`Pass.run`), one after the other, in which a rule is always handed
over as a removed one.

**Spec** — until an engine has once succeeded in reconciling the rule and that could be recorded, it
reconciles it whenever it gets the lock; after that it never does again (`removal_reconciled_once`).

**Crux** — all that an engine knows of its earlier dealings with a rule is the latest outcome of
their record.  So the invariant is about that outcome alone (`Lock.Table.isRemovalDone`): a failure
leaves it undone, a success makes it done, and skipping the rule, which appends an outcome too,
keeps it done.  How many outcomes are kept does not matter as long as the latest is.

  1. One dealing moves the invariant on (`Dealing.handled`).  An outcome that cannot be recorded,
     because storage cannot be written when the lock is released, is lost without a word.
  2. A course of dealings keeps it by induction (`Course.spares`, `Course.first`).
  3. Passes are such courses (`course_of_turns`).

A success that is lost is not known to later passes, and the removal is reconciled again
(`removal_reconciled_twice`).
-/

namespace AccessRules

open Calendar

/-- Whether the latest outcome of a key is a removal that succeeded. -/
def Lock.Table.isRemovalDone (t : Lock.Table) (k : Lock.Key) : Bool :=
  (t.outcomesOf k).getLast?.any fun o => o.removed && o.successful

/-- The outcomes of a key are those of its record. -/
theorem Lock.Table.outcomesOf_of_record {t : Lock.Table} {k : Lock.Key} {r : Lock.Row}
    {record : Lock.Record} (hr : t.rowOf k = some r) (h : r.record = .ok record) :
    t.outcomesOf k = record.history := by
  have hread := Lock.Row.record_eq_ok_iff.mp h
  simp only [outcomesOf, hr, hread.history, Except.toOption, Option.getD_some]

/-- The latest of the outcomes that are kept is the one that was appended. -/
theorem Lock.getLast?_lastKept (outcomes : List Lock.Outcome) (o : Lock.Outcome) :
    (Lock.lastKept (outcomes ++ [o])).getLast? = some o := by
  have hlength : ¬ (outcomes ++ [o]).length ≤ (outcomes ++ [o]).length - Lock.historyLimit := by
    simp only [List.length_append, List.length_singleton, Lock.historyLimit]
    omega
  rw [Lock.lastKept, List.getLast?_drop, if_neg hlength, List.getLast?_concat]

/-- After an outcome was appended, the removal is done if that outcome says so. -/
theorem Lock.Table.Appended.isRemovalDone {k : Lock.Key} {o : Lock.Outcome} {t t' : Lock.Table}
    (h : Lock.Table.Appended k o t t') : t'.isRemovalDone k = (o.removed && o.successful) := by
  obtain ⟨r, record, hr, hrecord, _, hhistory⟩ := h.row
  rw [Lock.Table.isRemovalDone, Lock.Table.outcomesOf_of_record hr hrecord, hhistory,
    Lock.getLast?_lastKept, Option.any_some]

namespace Pass

variable {σ : Type}

/-! ## One dealing with a removed rule -/

namespace Dealing

namespace CarriedOut

variable {d : Dealing σ} {record : Lock.Record} {w : World σ}

/-- Of a removed rule the record tells whether its removal is done. -/
theorem isGone_eq (h : d.CarriedOut record w) (hremoved : d.rule.removed = true) :
    isGone d.rule record.latest? = d.world.database.locks.isRemovalDone d.key := by
  rw [isGone, hremoved, Bool.true_and, Lock.Record.latest?, h.history]
  rfl

/-- After a rule was carried out its removal is done if the outcome of the result says so, or
storage cannot be written and nothing has changed. -/
theorem isRemovalDone_after (h : d.CarriedOut record w) (he : d.engine.KeepsTime) :
    (d.after.around.letsWrite = true ∧ d.after.database.locks.isRemovalDone d.key =
        (d.rule.removed && d.result.error.isNone)) ∨
      (d.after.around.letsWrite = false ∧ d.after.database.locks.isRemovalDone d.key =
        d.world.database.locks.isRemovalDone d.key) := by
  rcases (h.cases he).2.1 with ⟨hwrite, started, ended, happended⟩ | ⟨hwrite, hsame⟩
  · exact .inl ⟨hwrite, happended.isRemovalDone⟩
  · refine .inr ⟨hwrite, ?_⟩
    rw [Lock.Table.isRemovalDone, hsame, Lock.Table.isRemovalDone]

end CarriedOut

/-- What became of a removed rule in a dealing, and whether its removal is done before and after. -/
inductive Handled (d : Dealing σ) : Prop
  | left (hno : ¬ d.TakesLock) (hspares : d.Spares) (hleft : d.IsLeft)
      (hsame : d.after.database.locks.isRemovalDone d.key =
        d.world.database.locks.isRemovalDone d.key)
  | skipped (hspares : d.Spares) (hleft : d.IsLeft)
      (hbefore : d.world.database.locks.isRemovalDone d.key = true)
      (hafter : d.after.database.locks.isRemovalDone d.key = true)
  | failed (hreconciles : d.Reconciles) (hstatus : d.result.status = .failed)
      (hbefore : d.world.database.locks.isRemovalDone d.key = false)
      (hafter : d.after.database.locks.isRemovalDone d.key = false)
  | succeeded (hreconciles : d.Reconciles) (hstatus : d.result.status = .succeeded)
      (hbefore : d.world.database.locks.isRemovalDone d.key = false)
      (hafter : d.after.database.locks.isRemovalDone d.key = d.after.around.letsWrite)

/-- A rule whose removal is done is skipped, and its removal stays done. -/
theorem CarriedOut.handled_of_done {d : Dealing σ} {record : Lock.Record} {w : World σ}
    (h : d.CarriedOut record w) (he : d.engine.KeepsTime) (hremoved : d.rule.removed = true)
    (hdone : d.world.database.locks.isRemovalDone d.key = true) : d.Handled := by
  have hgone := (h.isGone_eq hremoved).trans hdone
  have hresult : d.result = ⟨d.rule.id, d.engine.name, .alreadyRemoved, "", none⟩ := by
    rw [h.result, reconcile_of_isGone hgone]
  refine .skipped (fun act => ?_) (.inr (.inr (.inl (by rw [hresult])))) hdone ?_
  · -- whatever reconciling would do, it is not asked
    have hsame : (d.withReconcile act).deal = d.deal := by
      rw [h.deals act, h.deal]
      simp only [carryOut, reconcile_of_isGone hgone]
    rw [Dealing.result, Dealing.result, after, after, hsame]
    exact ⟨rfl, rfl⟩
  · rcases h.isRemovalDone_after he with ⟨_, hafter⟩ | ⟨_, hsame⟩
    · rw [hafter, hresult, hremoved]
      rfl
    · rw [hsame, hdone]

/-- A rule whose removal is not done is reconciled; a success makes it done if storage can be written
by then, and a failure does not. -/
theorem CarriedOut.handled_of_pending {d : Dealing σ} {record : Lock.Record} {w : World σ}
    (h : d.CarriedOut record w) (he : d.engine.KeepsTime) (hremoved : d.rule.removed = true)
    (hpending : d.world.database.locks.isRemovalDone d.key = false) : d.Handled := by
  have hgone := (h.isGone_eq hremoved).trans hpending
  have hreconciles : d.Reconciles := by
    intro act
    rw [after, h.deals act, carryOut_around, (reconcile_of_not_isGone hgone _ _).1, h.around]
  rcases (reconcile_of_not_isGone hgone d.engine w.around).2 with
    ⟨hstatus, herror⟩ | ⟨hstatus, text, herror⟩
  all_goals rw [← h.result] at hstatus herror
  · refine .succeeded hreconciles hstatus hpending ?_
    rcases h.isRemovalDone_after he with ⟨hwrite, hafter⟩ | ⟨hwrite, hsame⟩
    · rw [hafter, hwrite, hremoved, herror]
      rfl
    · rw [hsame, hwrite, hpending]
  · refine .failed hreconciles hstatus hpending ?_
    rcases h.isRemovalDone_after he with ⟨_, hafter⟩ | ⟨_, hsame⟩
    · rw [hafter, hremoved, herror]
      rfl
    · rw [hsame, hpending]

/-- **One dealing with a removed rule**: without the lock nothing happens; with it, the rule is
skipped if its removal is done, and reconciled otherwise. -/
theorem handled {d : Dealing σ} (he : d.engine.KeepsTime) (h : d.world.IsReadable)
    (hremoved : d.rule.removed = true) : d.Handled := by
  by_cases htakes : d.TakesLock
  · obtain ⟨record, w, hc⟩ := carriedOut_of_takesLock he h htakes
    cases hdone : d.world.database.locks.isRemovalDone d.key with
    | true => exact hc.handled_of_done he hremoved hdone
    | false => exact hc.handled_of_pending he hremoved hdone
  · obtain ⟨hspares, hleft, hlocks, _⟩ := left_of_not_takesLock he h htakes
    exact .left htakes hspares hleft (by rw [hlocks])

end Dealing

/-! ## Courses of dealings -/

/-- Between two worlds the removal of a key did not become done or undone. -/
def Keeps (k : Lock.Key) (w w' : World σ) : Prop :=
  w'.database.locks.isRemovalDone k = w.database.locks.isRemovalDone k

theorem Keeps.of_rowOf {k : Lock.Key} {w w' : World σ}
    (h : w'.database.locks.rowOf k = w.database.locks.rowOf k) : Keeps k w w' := by
  simp only [Keeps, Lock.Table.isRemovalDone, Lock.Table.outcomesOf, h]

theorem Keeps.withAround (k : Lock.Key) (w : World σ) (s : Surroundings σ) :
    Keeps k w { w with around := s } := rfl

/-- Dealings with a key, one after the other, from one world to another.  Between them anything may
happen that `Keeps` the removal as it is. -/
inductive Course (k : Lock.Key) : World σ → List (Dealing σ) → World σ → Prop
  | nil {w w' : World σ} (h : Keeps k w w') : Course k w [] w'
  | cons {w w' : World σ} {d : Dealing σ} {ds : List (Dealing σ)} (hkeeps : Keeps k w d.world)
      (hkey : d.key = k) (he : d.engine.KeepsTime) (hremoved : d.rule.removed = true)
      (h : d.world.IsReadable) (rest : Course k d.after ds w') : Course k w (d :: ds) w'

namespace Course

variable {k : Lock.Key} {w w' w'' : World σ} {ds ds' : List (Dealing σ)}

theorem after_keeps (hkeeps : Keeps k w w') (h : Course k w' ds w'') : Course k w ds w'' := by
  cases h with
  | nil h => exact .nil (Eq.trans h hkeeps)
  | cons hkeeps' hkey he hremoved h rest =>
    exact .cons (Eq.trans hkeeps' hkeeps) hkey he hremoved h rest

theorem append (h : Course k w ds w') (h' : Course k w' ds' w'') : Course k w (ds ++ ds') w'' := by
  induction h with
  | nil hkeeps => exact h'.after_keeps hkeeps
  | cons hkeeps hkey he hremoved h _ ih => exact .cons hkeeps hkey he hremoved h (ih h')

end Course

namespace Dealing

/-- A removal that is done stays done, and its rule is spared. -/
theorem spares_of_done {d : Dealing σ} (he : d.engine.KeepsTime) (h : d.world.IsReadable)
    (hremoved : d.rule.removed = true)
    (hdone : d.world.database.locks.isRemovalDone d.key = true) :
    d.Spares ∧ d.IsLeft ∧ d.after.database.locks.isRemovalDone d.key = true := by
  cases handled he h hremoved with
  | left _ hspares hleft hsame => exact ⟨hspares, hleft, hsame.trans hdone⟩
  | skipped hspares hleft _ hafter => exact ⟨hspares, hleft, hafter⟩
  | failed _ _ hbefore _ =>
    rw [hbefore] at hdone
    cases hdone
  | succeeded _ _ hbefore _ =>
    rw [hbefore] at hdone
    cases hdone

/-- As long as the removal is not done whoever gets the lock reconciles the rule; a success that can
be recorded makes it done, and all else leaves it undone. -/
theorem reconciles_of_pending {d : Dealing σ} (he : d.engine.KeepsTime) (h : d.world.IsReadable)
    (hremoved : d.rule.removed = true)
    (hpending : d.world.database.locks.isRemovalDone d.key = false) :
    (d.TakesLock → d.Reconciles) ∧
      (d.Completes → d.after.database.locks.isRemovalDone d.key = true) ∧
      (¬ d.Completes → d.after.database.locks.isRemovalDone d.key = false) := by
  cases handled he h hremoved with
  | left hno hspares _ hsame =>
    exact ⟨fun htakes => absurd htakes hno, fun hcompletes => absurd hcompletes.1.1
      hspares.not_reconciles, fun _ => hsame.trans hpending⟩
  | skipped _ _ hbefore _ =>
    rw [hpending] at hbefore
    cases hbefore
  | failed hreconciles hstatus _ hafter =>
    refine ⟨fun _ => hreconciles, fun hcompletes => ?_, fun _ => hafter⟩
    have hstatus' := hcompletes.1.2
    rw [hstatus] at hstatus'
    cases hstatus'
  | succeeded hreconciles hstatus _ hafter =>
    refine ⟨fun _ => hreconciles, fun hcompletes => hafter.trans hcompletes.2, fun hno => ?_⟩
    rw [hafter]
    exact Bool.eq_false_iff.mpr fun hwrite => hno ⟨⟨hreconciles, hstatus⟩, hwrite⟩

end Dealing

/-- **Once its removal is done a rule is spared for ever.** -/
theorem Course.spares {k : Lock.Key} {w w' : World σ} {ds : List (Dealing σ)}
    (h : Course k w ds w') (hdone : w.database.locks.isRemovalDone k = true) :
    ∀ d ∈ ds, d.Spares ∧ d.IsLeft := by
  induction h with
  | nil _ => simp
  | cons hkeeps hkey he hremoved h _ ih =>
    subst hkey
    obtain ⟨hspares, hleft, hafter⟩ :=
      Dealing.spares_of_done he h hremoved (Eq.trans hkeeps hdone)
    intro d' hd'
    rcases List.mem_cons.mp hd' with rfl | hd'
    · exact ⟨hspares, hleft⟩
    · exact ih hafter d' hd'

/-- **Until the first success that is recorded a rule is reconciled by whoever gets the lock, and
then no more.** -/
theorem Course.first {k : Lock.Key} {w w' : World σ} {ds : List (Dealing σ)}
    (h : Course k w ds w') (hpending : w.database.locks.isRemovalDone k = false)
    {before : List (Dealing σ)} {d : Dealing σ} {after : List (Dealing σ)}
    (hds : ds = before ++ d :: after) :
    ((∀ m ∈ before, ¬ m.Completes) → d.TakesLock → d.Reconciles) ∧
      ((∃ m ∈ before, m.Completes) → d.Spares ∧ d.IsLeft) := by
  induction h generalizing before with
  | nil _ => simp at hds
  | @cons w w' first ds hkeeps hkey he hremoved h rest ih =>
    subst hkey
    have hstep := Dealing.reconciles_of_pending he h hremoved (Eq.trans hkeeps hpending)
    cases before with
    | nil =>
      obtain ⟨rfl, _⟩ := List.cons.inj hds
      exact ⟨fun _ => hstep.1, by simp⟩
    | cons m before =>
      obtain ⟨hm, hrest⟩ := List.cons.inj hds
      subst hm
      by_cases hcompletes : first.Completes
      · -- the removal is done from here on
        have hspares := rest.spares (hstep.2.1 hcompletes) d (by simp [hrest])
        exact ⟨fun hnone => absurd hcompletes (hnone first (by simp)), fun _ => hspares⟩
      · obtain ⟨hfirst, hlater⟩ := ih (hstep.2.2 hcompletes) hrest
        refine ⟨fun hnone => hfirst fun m' hm' => hnone m' (by simp [hm']), ?_⟩
        rintro ⟨m', hm', hs'⟩
        rcases List.mem_cons.mp hm' with rfl | hm'
        · exact absurd hs' hcompletes
        · exact hlater ⟨m', hm', hs'⟩

/-! ## Passes as courses -/

/-- The dealings of an engine with some rules, in their order. -/
def ruleDealings (mode : Mode) (e : Engine σ) : List Rule → World σ → List (Dealing σ)
  | [], _ => []
  | rule :: rules, w =>
    ⟨mode, e, rule, w⟩ :: ruleDealings mode e rules (applyRule mode e rule w).2

/-- The dealings of a pass, engine by engine. -/
def dealings (mode : Mode) (rules : List Rule) : List (Engine σ) → World σ → List (Dealing σ)
  | [], _ => []
  | e :: engines, w =>
    ruleDealings mode e rules { w with around := (e.begin w.around).2 } ++
      dealings mode rules engines (applyEngine mode rules e w).2

theorem applyRules_results (mode : Mode) (e : Engine σ) (rules : List Rule) (w : World σ) :
    (applyRules mode e rules w).1 = (ruleDealings mode e rules w).map (·.result) := by
  induction rules generalizing w with
  | nil => rfl
  | cons rule rules ih =>
    rw [ruleDealings, List.map_cons, ← ih]
    rfl

/-- The results of a pass are those of its dealings. -/
theorem run_results (mode : Mode) (engines : List (Engine σ)) (rules : List Rule) (w : World σ) :
    (run mode engines rules w).1.engines.flatMap (·.rules) =
      (dealings mode rules engines w).map (·.result) := by
  show (applyEngines mode rules engines w).1.flatMap (·.rules) = _
  induction engines generalizing w with
  | nil => rfl
  | cons e engines ih =>
    rw [dealings, List.map_append, ← ih, ← applyRules_results]
    rfl

/-- A pass over some rules by some engines, and the world it met. -/
structure Turn (σ : Type) where
  mode : Mode
  engines : List (Engine σ)
  rules : List Rule
  world : World σ

namespace Turn

/-- What a pass comes to. -/
def outcome (t : Turn σ) : Result × World σ := run t.mode t.engines t.rules t.world

/-- The world after a pass. -/
def after (t : Turn σ) : World σ := t.outcome.2

/-- The dealings of a pass with a key. -/
def dealingsWith (k : Lock.Key) (t : Turn σ) : List (Dealing σ) :=
  (dealings t.mode t.rules t.engines t.world).filter fun d => d.key = k

/-- A pass hands over the rule of a key as a removed one, to engines that keep within the calendar,
at a time of the calendar and over lock records that callers can bring about. -/
structure HandsOver (k : Lock.Key) (t : Turn σ) : Prop where
  removed : ∀ rule ∈ t.rules, rule.id = k.ruleId → rule.removed = true
  engines : ∀ e ∈ t.engines, e.KeepsTime
  now : inCalendar t.world.around.now = true
  locks : Lock.Reachable t.world.database.locks

end Turn

theorem course_ruleDealings (k : Lock.Key) (mode : Mode) {e : Engine σ} (he : e.KeepsTime)
    {rules : List Rule} (hrules : ∀ rule ∈ rules, rule.id = k.ruleId → rule.removed = true)
    {w : World σ} (h : w.IsReadable) :
    Course k w ((ruleDealings mode e rules w).filter fun d => d.key = k)
        (applyRules mode e rules w).2 ∧
      (applyRules mode e rules w).2.IsReadable := by
  induction rules generalizing w with
  | nil => exact ⟨.nil rfl, h⟩
  | cons rule rules ih =>
    obtain ⟨hreadable, hothers⟩ := Dealing.after_frame (d := ⟨mode, e, rule, w⟩) he h
    obtain ⟨hrest, hend⟩ := ih (fun r hr => hrules r (List.mem_cons_of_mem _ hr)) hreadable
    refine ⟨?_, hend⟩
    by_cases hkey : (Dealing.mk mode e rule w).key = k
    · have hremoved := hrules rule (List.mem_cons_self ..) (congrArg Lock.Key.ruleId hkey)
      rw [ruleDealings, List.filter_cons_of_pos (by simpa using hkey)]
      exact .cons rfl hkey he hremoved h hrest
    · -- a dealing with another key does not touch the record of this one
      rw [ruleDealings, List.filter_cons_of_neg (by simpa using hkey)]
      exact hrest.after_keeps (.of_rowOf (hothers k (Ne.symm hkey)))

theorem course_dealings (k : Lock.Key) (mode : Mode) {engines : List (Engine σ)}
    (he : ∀ e ∈ engines, e.KeepsTime) {rules : List Rule}
    (hrules : ∀ rule ∈ rules, rule.id = k.ruleId → rule.removed = true) {w : World σ}
    (h : w.IsReadable) :
    Course k w ((dealings mode rules engines w).filter fun d => d.key = k)
      (applyEngines mode rules engines w).2 := by
  induction engines generalizing w with
  | nil => exact .nil rfl
  | cons e engines ih =>
    have hkeeps := he e (List.mem_cons_self ..)
    obtain ⟨hfirst, hreadable⟩ :=
      course_ruleDealings k mode hkeeps hrules (h.withAround (hkeeps.begin w.around h.now))
    have hfinish := hkeeps.finish (applyRules mode e rules
      { w with around := (e.begin w.around).2 }).2.around hreadable.now
    have hrest := ih (fun e' he' => he e' (List.mem_cons_of_mem _ he'))
      (hreadable.withAround hfinish)
    rw [dealings, List.filter_append]
    exact (hfirst.after_keeps (.withAround k w _)).append (hrest.after_keeps (.withAround k _ _))

theorem Turn.HandsOver.course {k : Lock.Key} {t : Turn σ} (h : t.HandsOver k) :
    Course k t.world (t.dealingsWith k) t.after :=
  course_dealings k t.mode h.engines h.removed ⟨h.now, h.locks.isSound⟩

/-- Between two worlds the record of a key was changed by signs of life only.  All else may have
changed: the clock, the connection, other records, the rules. -/
def Undisturbed (k : Lock.Key) (w w' : World σ) : Prop :=
  ∃ pings : List (List String × Instant), w'.database.locks.rowOf k =
    Lock.Table.rowOf (pings.foldl (fun t p => t.ping p.1 p.2) w.database.locks) k

/-- Signs of life leave outcomes as they are. -/
theorem outcomesOf_ping (t : Lock.Table) (ids : List String) (now : Instant) (k : Lock.Key) :
    (t.ping ids now).outcomesOf k = t.outcomesOf k := by
  have hrow := t.rowOf_ping ids now k
  cases hr : t.rowOf k with
  | none => rw [Lock.Table.outcomesOf, Lock.Table.outcomesOf, hrow, hr, Option.map_none]
  | some r =>
    rw [Lock.Table.outcomesOf, Lock.Table.outcomesOf, hrow, hr, Option.map_some]
    by_cases hid : ids.contains r.id = true
    · simp only [hid, if_true, Lock.Row.alive]
    · simp only [hid, if_false, Bool.false_eq_true]

theorem outcomesOf_pings (pings : List (List String × Instant)) (t : Lock.Table) (k : Lock.Key) :
    Lock.Table.outcomesOf (pings.foldl (fun t p => t.ping p.1 p.2) t) k = t.outcomesOf k := by
  induction pings generalizing t with
  | nil => rfl
  | cons p pings ih => rw [List.foldl_cons, ih, outcomesOf_ping]

theorem Undisturbed.keeps {k : Lock.Key} {w w' : World σ} (h : Undisturbed k w w') :
    Keeps k w w' := by
  obtain ⟨pings, hrow⟩ := h
  have houtcomes : w'.database.locks.outcomesOf k = w.database.locks.outcomesOf k := by
    rw [← outcomesOf_pings pings w.database.locks k]
    simp only [Lock.Table.outcomesOf, hrow]
  rw [Keeps, Lock.Table.isRemovalDone, houtcomes, Lock.Table.isRemovalDone]

/-- Passes, one after the other, are a course of dealings. -/
theorem course_of_turns {k : Lock.Key} {turns : List (Turn σ)} (h : ∀ t ∈ turns, t.HandsOver k)
    (hchain : turns.IsChain fun t t' => Undisturbed k t.after t'.world) {w : World σ}
    (hfirst : ∀ t ∈ turns.head?, Keeps k w t.world) :
    ∃ w', Course k w (turns.flatMap (·.dealingsWith k)) w' := by
  induction turns generalizing w with
  | nil => exact ⟨w, .nil rfl⟩
  | cons t turns ih =>
    obtain ⟨hbetween, hchain⟩ := List.isChain_cons.mp hchain
    obtain ⟨w', hrest⟩ := ih (fun t' ht' => h t' (List.mem_cons_of_mem _ ht')) hchain
      fun t' ht' => (hbetween t' ht').keeps
    refine ⟨w', ?_⟩
    rw [List.flatMap_cons]
    exact ((h t (List.mem_cons_self ..)).course.after_keeps (hfirst t rfl)).append hrest

/-- **A removal that is recorded is reconciled no more.**  In any sequence of passes that hand over a
rule as removed, with its record for an engine changed by them and by signs of life only and no
removal done at first: up to the first success that can be recorded when the lock is released the
engine reconciles the rule whenever it gets the lock, and afterwards it never reconciles it again,
but leaves it alone. -/
theorem removal_reconciled_once (k : Lock.Key) {turns : List (Turn σ)}
    (h : ∀ t ∈ turns, t.HandsOver k)
    (hchain : turns.IsChain fun t t' => Undisturbed k t.after t'.world)
    (hfirst : ∀ t ∈ turns.head?, t.world.database.locks.isRemovalDone k = false) :
    (∀ t ∈ turns, t.outcome.1.engines.flatMap (·.rules) =
      (dealings t.mode t.rules t.engines t.world).map (·.result)) ∧
    ∀ before d after, turns.flatMap (·.dealingsWith k) = before ++ d :: after →
      ((∀ m ∈ before, ¬ m.Completes) → d.TakesLock → d.Reconciles) ∧
        ((∃ m ∈ before, m.Completes) → d.Spares ∧ d.IsLeft) := by
  refine ⟨fun t _ => run_results t.mode t.engines t.rules t.world, fun before d after hds => ?_⟩
  cases turns with
  | nil => simp at hds
  | cons t turns =>
    obtain ⟨w', hcourse⟩ := course_of_turns h hchain (w := t.world) (by
      intro t' ht'
      obtain rfl := Option.some.inj ht'
      rfl)
    exact hcourse.first (hfirst t rfl) hds

/-- An engine that succeeds without a word. -/
def tacitEngine : Engine Unit where
  name := "tacit"
  sort := "Tacit"
  reconcile _ s := (.ok .nothing, s)

theorem keepsTime_tacitEngine : tacitEngine.KeepsTime :=
  ⟨fun _ h => h, fun _ _ h => h, fun _ _ h => h, fun _ h => h⟩

/-- A removed rule. -/
def removedRule : Rule := { emptyRule with removed := true }

/-- A pass over that rule which takes the lock in any case. -/
def removalTurn (e : Engine Unit) (w : World Unit) : Turn Unit := ⟨⟨0, true⟩, [e], [removedRule], w⟩

/-- The one dealing of such a pass. -/
def removalDealing (e : Engine Unit) (w : World Unit) : Dealing Unit :=
  ⟨⟨0, true⟩, e, removedRule, w⟩

theorem dealingsWith_removalTurn (w : World Unit) :
    (removalTurn tacitEngine w).dealingsWith ⟨"rule", "tacit"⟩ =
      [removalDealing tacitEngine w] := rfl

theorem handsOver_removalTurn {e : Engine Unit} (he : e.KeepsTime) {w : World Unit}
    (hnow : w.around.now = 0) (hlocks : Lock.Reachable w.database.locks) :
    (removalTurn e w).HandsOver ⟨"rule", "tacit"⟩ where
  removed rule hrule _ := by rw [List.mem_singleton.mp hrule]; rfl
  engines e' he' := by
    rw [List.mem_singleton.mp he']
    exact he
  now := by
    show inCalendar w.around.now = true
    rw [hnow]
    decide
  locks := hlocks

/-- Whoever gets the lock while the removal is not done succeeds if the result says so. -/
theorem succeeds_removalDealing {e : Engine Unit} (he : e.KeepsTime) {w : World Unit}
    (hnow : w.around.now = 0) (hlocks : w.database.locks.IsSound)
    (hpending : w.database.locks.isRemovalDone (removalDealing e w).key = false)
    (htakes : (removalDealing e w).TakesLock)
    (hstatus : (removalDealing e w).result.status = .succeeded) :
    (removalDealing e w).Succeeds := by
  have hreadable : (removalDealing e w).world.IsReadable := by
    refine ⟨?_, hlocks⟩
    show inCalendar w.around.now = true
    rw [hnow]
    decide
  exact ⟨(Dealing.reconciles_of_pending he hreadable rfl hpending).1 htakes, hstatus⟩

/-- Two passes of the tacit engine, one right after the other. -/
def removalTurns : List (Turn Unit) :=
  [removalTurn tacitEngine emptyWorld,
    removalTurn tacitEngine (removalTurn tacitEngine emptyWorld).after]

/-- What the callers of locks do in a pass of the tacit engine. -/
def removalCalls : List Lock.Call :=
  [⟨0, 0, .start ⟨0, "rule", "tacit", true⟩ "00000000000000000000000000000001"⟩,
    ⟨0, 0, .finish ⟨"rule", "tacit"⟩ ⟨.utc 0, .utc 0, true, true, "", ""⟩⟩]

theorem reachable_removalTurn :
    Lock.Reachable (removalTurn tacitEngine emptyWorld).after.database.locks := by
  refine ⟨0, removalCalls, ?_, by decide +kernel⟩
  intro c hc
  rcases List.mem_cons.mp hc with rfl | hc
  · exact ⟨by decide, fun k o h => by cases h⟩
  · rw [List.mem_singleton.mp hc]
    refine ⟨by decide, fun k o h => ?_⟩
    cases h
    exact ⟨_, Lock.Outcome.read_stored ⟨⟨0, by decide, rfl⟩, ⟨0, by decide, rfl⟩⟩⟩

/-- The first of two passes over the removed rule succeeds, and the second one spares it. -/
theorem removal_reconciled_once_tacit :
    (removalDealing tacitEngine emptyWorld).Completes ∧
      (removalDealing tacitEngine (removalTurn tacitEngine emptyWorld).after).Spares ∧
      (removalDealing tacitEngine (removalTurn tacitEngine emptyWorld).after).IsLeft := by
  have hcompletes : (removalDealing tacitEngine emptyWorld).Completes :=
    ⟨succeeds_removalDealing keepsTime_tacitEngine rfl Lock.Table.isSound_nil rfl ⟨rfl, _, rfl⟩ rfl,
      rfl⟩
  have hturns : ∀ t ∈ removalTurns, t.HandsOver ⟨"rule", "tacit"⟩ := by
    intro t ht
    rcases List.mem_cons.mp ht with rfl | ht
    · exact handsOver_removalTurn keepsTime_tacitEngine rfl ⟨0, [], by simp, rfl⟩
    · rw [List.mem_singleton.mp ht]
      exact handsOver_removalTurn keepsTime_tacitEngine rfl reachable_removalTurn
  have hchain : removalTurns.IsChain
      fun t t' => Undisturbed ⟨"rule", "tacit"⟩ t.after t'.world :=
    .cons_cons ⟨[], rfl⟩ (.singleton _)
  have hfirst : ∀ t ∈ removalTurns.head?,
      t.world.database.locks.isRemovalDone ⟨"rule", "tacit"⟩ = false := by
    intro t ht
    obtain rfl := Option.some.inj ht
    rfl
  have hsecond := (removal_reconciled_once ⟨"rule", "tacit"⟩ hturns hchain hfirst).2
    [removalDealing tacitEngine emptyWorld]
    (removalDealing tacitEngine (removalTurn tacitEngine emptyWorld).after) [] (by
      simp only [removalTurns, List.flatMap_cons, List.flatMap_nil, dealingsWith_removalTurn]
      rfl)
  exact ⟨hcompletes, hsecond.2 ⟨_, List.mem_singleton_self _, hcompletes⟩⟩

/-- An engine during whose work someone else begins to write to storage. -/
def crowdedEngine : Engine Unit where
  name := "tacit"
  sort := "Crowded"
  reconcile _ s := (.ok .nothing, { s with trouble := some "database is locked" })

theorem keepsTime_crowdedEngine : crowdedEngine.KeepsTime :=
  ⟨fun _ h => h, fun _ _ h => h, fun _ _ h => h, fun _ h => h⟩

/-- The world a pass of that engine leaves, when storage can be written again. -/
def calmedWorld : World Unit :=
  { (removalTurn crowdedEngine emptyWorld).after with around := ⟨0, true, (), none⟩ }

/-- A pass of that engine takes the lock and does not release it. -/
theorem reachable_calmedWorld : Lock.Reachable calmedWorld.database.locks := by
  refine ⟨0, removalCalls.take 1, ?_, by decide +kernel⟩
  intro c hc
  rw [List.mem_singleton.mp hc]
  exact ⟨by decide, fun k o h => by cases h⟩

/-- **A removal can be reconciled twice with success.**  Storage cannot be written when the first of
two passes releases the lock, so that its success is lost, and the second pass reconciles the rule
once more. -/
theorem removal_reconciled_twice :
    let turns := [removalTurn crowdedEngine emptyWorld, removalTurn crowdedEngine calmedWorld]
    (∀ t ∈ turns, t.HandsOver ⟨"rule", "tacit"⟩) ∧
      (turns.IsChain fun t t' => Undisturbed ⟨"rule", "tacit"⟩ t.after t'.world) ∧
      (∀ t ∈ turns.head?,
        t.world.database.locks.isRemovalDone ⟨"rule", "tacit"⟩ = false) ∧
      turns.flatMap (·.dealingsWith ⟨"rule", "tacit"⟩) =
        [removalDealing crowdedEngine emptyWorld, removalDealing crowdedEngine calmedWorld] ∧
      (removalDealing crowdedEngine emptyWorld).Succeeds ∧
      (removalDealing crowdedEngine calmedWorld).Succeeds ∧
      ¬ (removalDealing crowdedEngine calmedWorld).Spares := by
  have hlater : (removalDealing crowdedEngine calmedWorld).Succeeds :=
    succeeds_removalDealing keepsTime_crowdedEngine rfl reachable_calmedWorld.isSound
      (by decide +kernel) ⟨rfl, _, rfl⟩ (by decide +kernel)
  refine ⟨?_, .cons_cons ⟨[], rfl⟩ (.singleton _), ?_, rfl, ?_, hlater, fun hspares =>
    hspares.not_reconciles hlater.1⟩
  · intro t ht
    rcases List.mem_cons.mp ht with rfl | ht
    · exact handsOver_removalTurn keepsTime_crowdedEngine rfl ⟨0, [], by simp, rfl⟩
    · rw [List.mem_singleton.mp ht]
      exact handsOver_removalTurn keepsTime_crowdedEngine rfl reachable_calmedWorld
  · intro t ht
    obtain rfl := Option.some.inj ht
    rfl
  · exact succeeds_removalDealing keepsTime_crowdedEngine rfl Lock.Table.isSound_nil rfl
      ⟨rfl, _, rfl⟩ rfl

end Pass

end AccessRules
