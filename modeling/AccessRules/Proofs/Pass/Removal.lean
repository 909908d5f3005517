import AccessRules.Command.Tasks
import AccessRules.Proofs.Pass.Steps
import AccessRules.Proofs.Rule.Identifiers

/-!
# Removed rules and the periodic loop

**Program** — a rule is marked as removed by `Database.removeRule`; the periodic loop looks for
active rules and runs passes over them (`driver`).

**Spec** — however long the loop runs after that, the lock records of a removed rule stay as they
were (`IsDriver.steps`).  So no engine ever records a removal, unless there are no engines at all
(`removal_recorded_iff`).

**Crux** — a pass touches the records of the rules it is given and of no others (`run_touches`), and
a removed rule is not among the active ones, because an identifier stands once in the table.  What
one step of the loop preserves is `Ignores`.  Nothing is asked of the engines here; they may fail,
lose the connection or turn back the clock.
-/

namespace AccessRules.Pass

open Calendar Storage

variable {σ : Type}

/-! ## What passes touch -/

/-- Between two databases the stored rules are the same, and so are the lock records but those of
the rules with some identifiers. -/
structure TouchesOnly (ids : List String) (d d' : Database) : Prop where
  rules : d'.rules = d.rules
  rows : ∀ k : Lock.Key, k.ruleId ∉ ids → d'.locks.rowOf k = d.locks.rowOf k

namespace TouchesOnly

variable {ids ids' : List String} {d d' d'' : Database}

theorem refl (ids : List String) (d : Database) : TouchesOnly ids d d :=
  ⟨rfl, fun _ _ => rfl⟩

theorem trans (h : TouchesOnly ids d d') (h' : TouchesOnly ids d' d'') : TouchesOnly ids d d'' where
  rules := h'.rules.trans h.rules
  rows k hk := (h'.rows k hk).trans (h.rows k hk)

theorem mono (h : TouchesOnly ids d d') (hids : ids ⊆ ids') : TouchesOnly ids' d d' where
  rules := h.rules
  rows k hk := h.rows k fun hmem => hk (hids hmem)

end TouchesOnly

namespace World

/-- Taking a lock touches the records of its rule, and hands out one of them. -/
theorem startLock_touches (w : World σ) (mode : Mode) (ruleId engine : String) :
    TouchesOnly [ruleId] w.database (w.startLock mode ruleId engine).2.database ∧
      ∀ record, (w.startLock mode ruleId engine).1 = .ok record → record.ruleId = ruleId := by
  let wish : Lock.Wish := ⟨mode.interval, ruleId, engine, mode.force⟩
  rcases hd : w.database.startLock w.around.connected w.expire wish w.around.now w.ids
    w.around.trouble with ⟨answer, d, rest⟩
  have htouches : TouchesOnly [ruleId] w.database d ∧
      ∀ record, answer = .ok record → record.ruleId = ruleId := by
    rw [Database.startLock] at hd
    split at hd
    · cases hd
      exact ⟨.refl .., fun _ h => by cases h⟩
    · cases hd
      refine ⟨⟨rfl, fun k hk => ?_⟩, fun record h => (Lock.Table.names_of_start h).1⟩
      have hne : k ≠ wish.key := fun h => hk (by simp [h, wish, Lock.Wish.key])
      exact w.database.locks.rowOf_start_of_ne w.expire w.around.now w.ids.next.1 hne
  rw [startLock, hd]
  cases answer with
  | error f => exact ⟨htouches.1, fun _ h => by cases h⟩
  | ok record => exact htouches

/-- Releasing a lock touches the records of its rule. -/
theorem finishLock_touches (w : World σ) (record : Lock.Record) (o : Lock.Outcome) :
    TouchesOnly [record.ruleId] w.database (w.finishLock record o).2.database := by
  rcases hd : (w.tell (.remove record.id)).database.finishLock w.around.connected record.ruleId
    record.engine o w.around.now w.around.trouble with ⟨done, d⟩
  have heq : (w.finishLock record o).2.database = d := congrArg Prod.snd hd
  rw [heq]
  rw [tell_database, Database.finishLock] at hd
  split at hd
  · cases hd
    exact .refl ..
  · cases hd
    refine ⟨rfl, fun k hk => ?_⟩
    have hne : k ≠ ⟨record.ruleId, record.engine⟩ := fun h => hk (by simp [h])
    exact w.database.locks.rowOf_finish_of_ne o w.around.now hne

end World

/-- Dealing with a rule touches its records. -/
theorem applyRule_touches (mode : Mode) (e : Engine σ) (rule : Rule) (w : World σ) :
    TouchesOnly [rule.id] w.database (applyRule mode e rule w).2.database := by
  rw [applyRule]
  split
  · exact .refl ..
  · exact .refl ..
  · next s _ =>
    have htaken := World.startLock_touches { w with around := s } mode rule.id e.name
    split
    · next heq =>
      rw [heq] at htaken
      exact htaken.1
    · next record w' heq =>
      rw [heq] at htaken
      have hreleased := World.finishLock_touches
        { w' with around := (reconcile e rule record w'.around).2 } record
        (outcomeOf rule (reconcile e rule record w'.around).1 w'.around.now
          (reconcile e rule record w'.around).2.now)
      rw [htaken.2 record rfl] at hreleased
      exact htaken.1.trans hreleased

theorem applyRules_touches (mode : Mode) (e : Engine σ) (rules : List Rule) (w : World σ) :
    TouchesOnly (rules.map (·.id)) w.database (applyRules mode e rules w).2.database := by
  induction rules generalizing w with
  | nil => exact .refl ..
  | cons rule rules ih =>
    have hfirst := applyRule_touches mode e rule w
    have hrest := ih (applyRule mode e rule w).2
    exact .trans (hfirst.mono (by simp)) (hrest.mono (by simp))

/-- **A pass touches the records of its rules only.** -/
theorem run_touches (mode : Mode) (engines : List (Engine σ)) (rules : List Rule) (w : World σ) :
    TouchesOnly (rules.map (·.id)) w.database (run mode engines rules w).2.database := by
  show TouchesOnly _ w.database (applyEngines mode rules engines w).2.database
  induction engines generalizing w with
  | nil => exact .refl ..
  | cons e engines ih =>
    have hfirst := applyRules_touches mode e rules { w with around := (e.begin w.around).2 }
    exact hfirst.trans (ih (applyEngine mode rules e w).2)

/-! ## The periodic loop -/

/-- What a loop works with looks for the active rules of a database and runs passes over them, which
touch the records of these rules only. -/
structure IsDriver {τ : Type} (service : Periodic.Loop.Service Rule τ) (database : τ → Database) :
    Prop where
  find : ∀ l s, ∃ connected l',
    service.find l s = ((database s).activeRules connected, l', s)
  pass : ∀ rules s,
    TouchesOnly (rules.map (·.id)) (database s) (database (service.pass rules s).2)

/-- The passes of the periodic loop are over all active rules, and never forced. -/
def driver (mode : Mode) (engines : List (Engine σ)) : Periodic.Loop.Service Rule (World σ) where
  find l w := (w.database.activeRules w.around.connected, l, w)
  pass rules w := (.ok (), (run { mode with force := false } engines rules w).2)

theorem isDriver_driver (mode : Mode) (engines : List (Engine σ)) :
    IsDriver (driver mode engines) World.database where
  find l w := ⟨w.around.connected, l, rfl⟩
  pass := run_touches { mode with force := false } engines

/-- The one pass of a worker is such a pass. -/
theorem isDriver_oncePassing (e : Command.Equipment) (s : Settings) :
    IsDriver (Command.oncePassing e s) fun done => done.2.database where
  find l _ := ⟨true, l.requestStop, rfl⟩
  pass rules done := run_touches ⟨e.times.interval, false⟩
    (e.engines.map (Engine.Stamper.engine
      (done.2.connection s.directory.host s.directory.token))) rules done.2.world

/-- A loop ignores an identifier: its rule is stored and removed, and no pass over it is due. -/
structure Ignores (id : String) (l : Periodic.Loop Rule) (d : Database) : Prop where
  reachable : Rule.Reachable d.rules
  removed : ∃ r ∈ d.rules, r.id = id ∧ r.removed = true
  due : ∀ rules, l.phase = .passing rules → id ∉ rules.map (·.id)

section Steps

variable {τ : Type} {service : Periodic.Loop.Service Rule τ} {database : τ → Database}

/-- The next step of a loop touches no records of a rule it ignores, and goes on to ignore it. -/
theorem IsDriver.step (hs : IsDriver service database) {id : String} {l : Periodic.Loop Rule}
    {s : τ} (h : Ignores id l (database s)) :
    Ignores id (l.step service s).1 (database (l.step service s).2) ∧ ∀ engine,
      (database (l.step service s).2).locks.rowOf ⟨id, engine⟩ =
        (database s).locks.rowOf ⟨id, engine⟩ := by
  unfold Periodic.Loop.step
  split
  · -- outside
    exact ⟨h, fun _ => rfl⟩
  · -- looking: here the removed rule is left out
    obtain ⟨connected, l', hfind⟩ := hs.find l s
    rw [hfind]
    cases hactive : (database s).activeRules connected with
    | error f => exact ⟨⟨h.reachable, h.removed, fun _ hp => by cases hp⟩, fun _ => rfl⟩
    | ok rules =>
      refine ⟨⟨h.reachable, h.removed, fun rules' hp => ?_⟩, fun _ => rfl⟩
      cases hp
      obtain ⟨r, hr, rfl, hremoved⟩ := h.removed
      exact Rule.not_active_of_removed h.reachable hactive hr hremoved
  · -- passing
    next rules hphase =>
    have htouches := hs.pass rules s
    refine ⟨⟨?_, ?_, fun _ hp => by cases hp⟩, fun engine => ?_⟩
    · rw [htouches.rules]
      exact h.reachable
    · rw [htouches.rules]
      exact h.removed
    · exact htouches.rows ⟨id, engine⟩ (h.due rules hphase)
  · -- waiting
    split
    · exact ⟨⟨h.reachable, h.removed, fun _ hp => by cases hp⟩, fun _ => rfl⟩
    · exact ⟨⟨h.reachable, h.removed, fun _ hp => by cases hp⟩, fun _ => rfl⟩

/-- **However long a loop runs, it touches no records of a rule it ignores.** -/
theorem IsDriver.steps (hs : IsDriver service database) {id : String} (fuel : Nat)
    {l : Periodic.Loop Rule} {s : τ} (h : Ignores id l (database s)) (engine : String) :
    (database (l.steps service fuel s).2).locks.rowOf ⟨id, engine⟩ =
      (database s).locks.rowOf ⟨id, engine⟩ := by
  induction fuel generalizing l s with
  | zero => rfl
  | succ fuel ih =>
    obtain ⟨hnext, hrows⟩ := hs.step h
    rw [Periodic.Loop.steps]
    split
    · rfl
    · exact (ih hnext).trans (hrows engine)

end Steps

/-- **A worker touches no records of a rule that was removed.** -/
theorem work_rowOf (e : Command.Equipment) (s : Settings) (l : Periodic.Loop Rule) (site : Site)
    (hreach : Rule.Reachable site.database.rules) {r : Rule.Row} (hr : r ∈ site.database.rules)
    (hremoved : r.removed = true) (passes : Nat) (engine : String) :
    (l.run (Command.oncePassing e s) passes (Command.noRun, site)).2.2.database.locks.rowOf
        ⟨r.id, engine⟩ =
      site.database.locks.rowOf ⟨r.id, engine⟩ := by
  refine (isDriver_oncePassing e s).steps (3 * passes) ⟨hreach, ⟨r, hr, rfl, hremoved⟩, ?_⟩ engine
  intro rules hp
  rw [Periodic.Loop.enter] at hp
  split at hp <;> cases hp

/-! ## Removals are not recorded -/

/-- The removal of a rule was recorded: its record is not what it was, and the latest outcome in it
is that of a removed rule. -/
def RecordsRemoval (k : Lock.Key) (before after : Lock.Table) : Prop :=
  ∃ r record o, after.rowOf k = some r ∧ before.rowOf k ≠ some r ∧ r.record = .ok record ∧
    record.latest? = some o ∧ o.removed = true

theorem not_recordsRemoval {k : Lock.Key} {before after : Lock.Table}
    (h : after.rowOf k = before.rowOf k) : ¬ RecordsRemoval k before after := by
  rintro ⟨r, record, o, hr, hne, _⟩
  exact hne (h.symm.trans hr)

/-- Removing a rule marks a stored rule. -/
theorem exists_removed_of_removeRule {d d' : Database} {connected : Bool} {id : String} {n : Nat}
    (h : d.removeRule connected id = .ok (n, d')) :
    (∃ r ∈ d'.rules, r.removed = true ∧ (id = "" ∨ r.id = id)) ∧
      d.rules.remove ⟨id, []⟩ = .ok (n, d'.rules) := by
  rw [Database.removeRule, Database.removeRules] at h
  obtain ⟨_, _, h⟩ := ok_of_bind h
  obtain ⟨⟨m, t⟩, hremove, h⟩ := ok_of_bind h
  by_cases hm : m = 0
  · simp [hm] at h
  · simp only [hm, if_false] at h
    cases h
    exact ⟨Rule.Table.exists_removed hremove hm, hremove⟩

/-- **No engine records the removal of a rule** in the periodic loop.  When rules were just removed
and no pass is due, the records of every removed rule stay as they were however long the loop runs
on.  So the removal is recorded by all engines only if there are none. -/
theorem removal_recorded_iff (mode : Mode) (engines : List (Engine σ)) {d : Database}
    (hreach : Rule.Reachable d.rules) {connected : Bool} {id : String} {n : Nat} {w : World σ}
    (hremove : d.removeRule connected id = .ok (n, w.database)) {l : Periodic.Loop Rule}
    (hl : ∀ rules, l.phase ≠ .passing rules) (fuel : Nat) :
    let after := (l.steps (driver mode engines) fuel w).2.database.locks
    (∃ r ∈ w.database.rules, r.removed = true ∧ (id = "" ∨ r.id = id)) ∧
      ∀ r ∈ w.database.rules, r.removed = true →
        (∀ engine, after.rowOf ⟨r.id, engine⟩ = w.database.locks.rowOf ⟨r.id, engine⟩) ∧
          ((∀ e ∈ engines, RecordsRemoval ⟨r.id, e.name⟩ w.database.locks after) ↔
            engines = []) := by
  obtain ⟨hexists, ht⟩ := exists_removed_of_removeRule hremove
  refine ⟨hexists, fun r hr hremoved => ?_⟩
  have hignores : Ignores r.id l w.database :=
    ⟨.remove ⟨id, []⟩ n hreach ht, ⟨r, hr, rfl, hremoved⟩, fun rules hp => absurd hp (hl rules)⟩
  have hrows := (isDriver_driver mode engines).steps fuel hignores
  refine ⟨hrows, fun hall => ?_, fun hnone => ?_⟩
  · cases engines with
    | nil => rfl
    | cons e engines =>
      exact absurd (hall e (List.mem_cons_self ..)) (not_recordsRemoval (hrows e.name))
  · subst hnone
    simp

/-- An engine that does nothing with rules. -/
def quietEngine : Engine Unit where
  name := "quiet"
  sort := "Quiet"
  reconcile _ s := (.ok .nothing, s)

/-- A database with one rule. -/
def ruleDatabase : Database :=
  { emptyWorld.database with rules := [Rule.Row.ofRule emptyRule] }

/-- The world after that rule was removed; its lock was never taken. -/
def removalWorld : World Unit :=
  { emptyWorld with
    database :=
      { ruleDatabase with rules := [{ Rule.Row.ofRule emptyRule with removed := true }] } }

theorem reachable_ruleDatabase : Rule.Reachable ruleDatabase.rules :=
  .insertAll false [emptyRule] .nil (by decide +kernel)

theorem removeRule_ruleDatabase :
    ruleDatabase.removeRule true "rule" = .ok (1, removalWorld.database) := by
  rfl

/-- A round of the periodic loop after that rule was removed, under an engine that may take its
lock at once. -/
def afterRound : Lock.Table :=
  ((Periodic.Loop.idle false).enter.steps (driver ⟨0, false⟩ [quietEngine]) 2
    removalWorld).2.database.locks

theorem removal_recorded_iff_quiet :
    Rule.Reachable ruleDatabase.rules ∧
      ruleDatabase.removeRule true "rule" = .ok (1, removalWorld.database) ∧
      ∃ r ∈ removalWorld.database.rules, r.removed = true ∧
        ((∀ e ∈ [quietEngine],
          RecordsRemoval ⟨r.id, e.name⟩ removalWorld.database.locks afterRound) ↔
            [quietEngine] = []) := by
  obtain ⟨⟨r, hr, hremoved, _⟩, hall⟩ :=
    removal_recorded_iff ⟨0, false⟩ [quietEngine] reachable_ruleDatabase removeRule_ruleDatabase
      (l := (Periodic.Loop.idle false).enter) (fun _ h => by cases h) 2
  exact ⟨reachable_ruleDatabase, removeRule_ruleDatabase, r, hr, hremoved, (hall r hr hremoved).2⟩

/-- The removal of a rule is not recorded by the pass that follows it, although the lock of the rule
and the engine could be taken. -/
theorem removal_not_recorded :
    Rule.Reachable ruleDatabase.rules ∧ Lock.Reachable removalWorld.database.locks ∧
      ruleDatabase.removeRule true "rule" = .ok (1, removalWorld.database) ∧
      (∃ record, (removalWorld.startLock ⟨0, false⟩ "rule" quietEngine.name).1 = .ok record) ∧
      ¬ RecordsRemoval ⟨"rule", quietEngine.name⟩ removalWorld.database.locks afterRound := by
  refine ⟨reachable_ruleDatabase, ⟨0, [], by simp, rfl⟩, removeRule_ruleDatabase, ⟨_, rfl⟩, ?_⟩
  have hignores : Ignores "rule" (Periodic.Loop.idle false).enter removalWorld.database :=
    ⟨.remove ⟨"rule", []⟩ 1 reachable_ruleDatabase
      (exists_removed_of_removeRule removeRule_ruleDatabase).2,
      ⟨_, List.mem_singleton.mpr rfl, rfl, rfl⟩, fun _ h => by cases h⟩
  exact not_recordsRemoval ((isDriver_driver _ _).steps 2 hignores _)

end AccessRules.Pass
