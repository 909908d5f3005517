import AccessRules.Pass.Basic
import AccessRules.Proofs.Lock.Soundness

/-!
# What a pass does, step by step

**Program** — `Pass.run`: engine by engine and rule by rule, `applyRule`.

**Spec** — a pass has a result for every engine in its order and, under it, for every rule in its
order, and each of them says what happened (`Dealt`): either the locks are as they were, or exactly
one outcome was appended for the rule and the engine, it agrees with the result, and the lock is
free again (`run_dealt`).

**Crux** — engines may do anything to their own state and may fail at every call; all that is asked
of them is that they leave the connection open, the clock within the calendar and storage out of
trouble (`Engine.KeepsStorage`).  A world in which storage can be used and all records can be read
(`World.IsSound`) stays one through every step, so nothing that went wrong with one rule is felt by
the next.
-/

namespace AccessRules

open Calendar

/-- Surroundings in which storage can be used: connected, at an instant of the calendar, and out of
trouble. -/
structure Surroundings.IsUsable {σ : Type} (s : Surroundings σ) : Prop where
  connected : s.connected = true
  now : inCalendar s.now = true
  trouble : s.trouble = none

/-- Whether a failure is that of a lock someone else has. -/
def Failure.isLocked : Failure → Bool
  | .fault ⟨.locked .., _, _, _, _⟩ => true
  | _ => false

/-- An engine that keeps its surroundings of some sort, whatever it does. -/
structure Engine.Keeps {σ : Type} (P : Surroundings σ → Prop) (e : Engine σ) : Prop where
  begin : ∀ s, P s → P (e.begin s).2
  admits : ∀ rule s, P s → P (e.admits rule s).2
  reconcile : ∀ rule s, P s → P (e.reconcile rule s).2
  finish : ∀ s, P s → P (e.finish s).2

/-- An engine that leaves storage usable and does not take its own failures for those of locks. -/
structure Engine.KeepsStorage {σ : Type} (e : Engine σ) : Prop extends
    e.Keeps Surroundings.IsUsable where
  unlocked : ∀ rule, ∀ s : Surroundings σ, ∀ f, (e.admits rule s).1 = .error f → f.isLocked = false

namespace Pass

variable {σ : Type}

/-- The wish a pass makes for the lock of a key. -/
def Mode.wish (mode : Mode) (k : Lock.Key) : Lock.Wish :=
  ⟨mode.interval, k.ruleId, k.engine, mode.force⟩

/-- A world in which storage can be used and all records can be read. -/
structure World.IsSound (w : World σ) : Prop where
  usable : w.around.IsUsable
  prepared : w.database.version.isSome = true
  locks : w.database.locks.IsSound

namespace World

@[simp] theorem tell_database (w : World σ) (e : Lock.Event) :
    (w.tell e).database = w.database := rfl

@[simp] theorem tell_around (w : World σ) (e : Lock.Event) : (w.tell e).around = w.around := rfl

theorem IsSound.tell {w : World σ} (h : w.IsSound) (e : Lock.Event) : (w.tell e).IsSound :=
  ⟨h.usable, h.prepared, h.locks⟩

theorem IsSound.withAround {w : World σ} (h : w.IsSound) {s : Surroundings σ} (hs : s.IsUsable) :
    World.IsSound { w with around := s } :=
  ⟨hs, h.prepared, h.locks⟩

/-- In a sound world storage can be written. -/
theorem IsSound.canWrite {w : World σ} (h : w.IsSound) (operation table : String) :
    w.database.canWrite w.around.connected operation table w.around.trouble = .ok () :=
  Storage.Database.canWrite_eq_ok_iff.mpr ⟨h.usable.connected, h.usable.trouble, h.prepared⟩

/-- In a sound world a lock is taken as the table of locks says. -/
theorem IsSound.startLock_eq {w : World σ} (h : w.IsSound) (mode : Mode) (k : Lock.Key) :
    ∃ ids, w.database.startLock w.around.connected w.expire (mode.wish k) w.around.now w.ids
        w.around.trouble =
      let started := w.database.locks.start w.expire (mode.wish k) w.around.now w.ids.next.1
      (started.1, { w.database with locks := started.2 }, ids) := by
  rw [Storage.Database.startLock, h.canWrite]
  exact ⟨_, rfl⟩

/-- **Taking a lock in a sound world** hands out its record as it was, or fails and changes nothing;
the world stays sound. -/
theorem IsSound.startLock_cases {w : World σ} (h : w.IsSound) (mode : Mode) (k : Lock.Key) :
    (∃ f w', w.startLock mode k.ruleId k.engine = (.error f, w') ∧
      w'.database.locks = w.database.locks ∧ w'.IsSound) ∨
    (∃ record w', w.startLock mode k.ruleId k.engine = (.ok record, w') ∧
      record.ruleId = k.ruleId ∧ record.engine = k.engine ∧
      record.history = w.database.locks.outcomesOf k ∧
      Lock.Table.Taken k w.database.locks w'.database.locks ∧ w'.around = w.around ∧
      w'.IsSound) := by
  obtain ⟨ids, hd⟩ := h.startLock_eq mode k
  have hsound := h.locks.start h.usable.now w.expire (mode.wish k) w.ids.next.1
  rw [World.startLock, show (⟨mode.interval, k.ruleId, k.engine, mode.force⟩ : Lock.Wish) =
    mode.wish k from rfl, hd]
  rcases h.locks.start_cases h.usable.now w.expire (mode.wish k) w.ids.next.1 with
    ⟨f, heq⟩ | ⟨record, t, heq, hrule, hengine, hhistory, htaken⟩
  · rw [heq]
    exact .inl ⟨f, _, rfl, rfl, h.usable, h.prepared, h.locks⟩
  · rw [heq] at hsound ⊢
    exact .inr ⟨record, _, rfl, hrule, hengine, hhistory, htaken, rfl, h.usable, h.prepared,
      hsound⟩

/-- **Releasing a lock in a sound world** appends one outcome; the world stays sound. -/
theorem IsSound.finishLock {w : World σ} (h : w.IsSound) {record : Lock.Record} {k : Lock.Key}
    (hrule : record.ruleId = k.ruleId) (hengine : record.engine = k.engine) {r : Lock.Row}
    (hr : w.database.locks.rowOf k = some r) {o : Lock.Outcome} (ho : o.IsTimed) :
    ∃ w', w.finishLock record o = (.ok (), w') ∧
      Lock.Table.Appended k o w.database.locks w'.database.locks ∧ w'.around = w.around ∧
      w'.IsSound := by
  have hread := Lock.Outcome.read_stored ho
  obtain ⟨t, heq, happ⟩ := h.locks.finish_some h.usable.now hr hread
  have hsound := h.locks.finish h.usable.now k ⟨o, hread⟩
  rw [heq] at hsound
  refine ⟨World.tell (.remove record.id) { w with database := { w.database with locks := t } }, ?_,
    happ, rfl, h.usable, h.prepared, hsound⟩
  have hcan := (h.tell (.remove record.id)).canWrite "end_sync" Storage.Database.locksTable
  rw [World.finishLock, Storage.Database.finishLock, hcan]
  simp only [tell_database, tell_around, hrule, hengine, heq]
  rfl

end World

/-! ## One rule -/

/-- What came of asking for the lock of a rule and an engine that deals with it. -/
def attempt (mode : Mode) (e : Engine σ) (rule : Rule) (w : World σ) :
    Except Failure Lock.Record :=
  (World.startLock { w with around := (e.admits rule w.around).2 } mode rule.id e.name).1

/-- A result and an outcome that say the same about a rule, which was carried out in some
surroundings after some earlier outcomes. -/
structure Agrees (e : Engine σ) (rule : Rule) (s : Surroundings σ) (earlier : List Lock.Outcome)
    (r : RuleResult) (o : Lock.Outcome) : Prop where
  ruleId : r.ruleId = rule.id
  engine : r.engine = e.name
  status : r.status = .succeeded ∨ r.status = .failed ∨ r.status = .alreadyRemoved
  succeeded : r.status = .succeeded → ∃ report, (e.reconcile rule s).1 = .ok report ∧
    r.result = report.text ∧ r.error = none
  failed : r.status = .failed → ∃ f, (e.reconcile rule s).1 = .error f ∧ r.error = some f.text
  alreadyRemoved : r.status = .alreadyRemoved ↔ isGone rule earlier.getLast? = true
  removed : o.removed = rule.removed
  successful : o.successful = true ↔ r.status ≠ .failed
  error : o.error = r.error.getD ""
  result : o.result = r.result

/-- What dealing with a rule came to: its result and the world afterwards. -/
inductive Dealt (mode : Mode) (e : Engine σ) (rule : Rule) (w : World σ) :
    RuleResult → World σ → Prop
  | unanswered (f : Failure) (w' : World σ) (hadmits : (e.admits rule w.around).1 = .error f)
      (hlocks : w'.database.locks = w.database.locks) :
      Dealt mode e rule w ⟨rule.id, e.name, .failed, "", some f.text⟩ w'
  | notAllowed (w' : World σ) (hadmits : (e.admits rule w.around).1 = .ok false)
      (hlocks : w'.database.locks = w.database.locks) :
      Dealt mode e rule w ⟨rule.id, e.name, .notAllowed, "", none⟩ w'
  | locked (f : Failure) (w' : World σ) (hadmits : (e.admits rule w.around).1 = .ok true)
      (hstart : attempt mode e rule w = .error f) (hf : f.isLocked = true)
      (hlocks : w'.database.locks = w.database.locks) :
      Dealt mode e rule w ⟨rule.id, e.name, .locked, "", none⟩ w'
  | notStarted (f : Failure) (w' : World σ) (hadmits : (e.admits rule w.around).1 = .ok true)
      (hstart : attempt mode e rule w = .error f) (hf : f.isLocked = false)
      (hlocks : w'.database.locks = w.database.locks) :
      Dealt mode e rule w ⟨rule.id, e.name, .failed, "", some f.text⟩ w'
  | carriedOut (record : Lock.Record) (r : RuleResult) (o : Lock.Outcome) (w' : World σ)
      (hadmits : (e.admits rule w.around).1 = .ok true)
      (hstart : attempt mode e rule w = .ok record)
      (hagrees : Agrees e rule (e.admits rule w.around).2
        (w.database.locks.outcomesOf ⟨rule.id, e.name⟩) r o)
      (happended : Lock.Table.Appended ⟨rule.id, e.name⟩ o w.database.locks w'.database.locks) :
      Dealt mode e rule w r w'

theorem refused_of_isLocked (ruleId engine : String) {f : Failure} (h : f.isLocked = true) :
    refused ruleId engine f = ⟨ruleId, engine, .locked, "", none⟩ := by
  unfold Failure.isLocked at h
  split at h
  · rfl
  · cases h

theorem refused_of_not_isLocked (ruleId engine : String) {f : Failure} (h : f.isLocked = false) :
    refused ruleId engine f = ⟨ruleId, engine, .failed, "", some f.text⟩ := by
  unfold Failure.isLocked at h
  split at h
  · cases h
  · next hf =>
    unfold refused
    split
    · next heq => exact absurd rfl (hf _ _ _ _ _ _ _)
    · rfl

/-- Reconciling leaves storage usable, and the outcome made of its result agrees with it. -/
theorem agrees_reconcile {e : Engine σ} (he : e.KeepsStorage) (rule : Rule)
    (record : Lock.Record) {s : Surroundings σ} (hs : s.IsUsable) :
    (reconcile e rule record s).2.IsUsable ∧ ∀ started ended,
      Agrees e rule s record.history (reconcile e rule record s).1
        (outcomeOf rule (reconcile e rule record s).1 started ended) := by
  have hkeeps := he.reconcile rule s hs
  rw [reconcile]
  by_cases hgone : isGone rule record.latest? = true
  · rw [if_pos hgone]
    refine ⟨hs, fun started ended => ?_⟩
    exact
      { ruleId := rfl
        engine := rfl
        status := .inr (.inr rfl)
        succeeded := fun h => by cases h
        failed := fun h => by cases h
        alreadyRemoved := ⟨fun _ => hgone, fun _ => rfl⟩
        removed := rfl
        successful := ⟨fun _ => by simp, fun _ => rfl⟩
        error := rfl
        result := rfl }
  · rw [if_neg hgone]
    rcases hanswer : e.reconcile rule s with ⟨f | report, s'⟩
    all_goals rw [hanswer] at hkeeps
    · refine ⟨hkeeps, fun started ended => ?_⟩
      exact
        { ruleId := rfl
          engine := rfl
          status := .inr (.inl rfl)
          succeeded := fun h => by cases h
          failed := fun _ => ⟨f, by rw [hanswer], rfl⟩
          alreadyRemoved := ⟨fun h => by simp at h, fun h => absurd h hgone⟩
          removed := rfl
          successful := ⟨fun h => by simp [outcomeOf] at h, fun h => absurd rfl h⟩
          error := rfl
          result := rfl }
    · refine ⟨hkeeps, fun started ended => ?_⟩
      exact
        { ruleId := rfl
          engine := rfl
          status := .inl rfl
          succeeded := fun _ => ⟨report, by rw [hanswer], rfl, rfl⟩
          failed := fun h => by cases h
          alreadyRemoved := ⟨fun h => by simp at h, fun h => absurd h hgone⟩
          removed := rfl
          successful := ⟨fun _ => by simp, fun _ => rfl⟩
          error := rfl
          result := rfl }

/-- Carrying out a rule whose lock was taken appends one outcome that agrees with the result. -/
theorem carryOut_appended {e : Engine σ} (he : e.KeepsStorage) (rule : Rule)
    {record : Lock.Record} {w : World σ} (h : w.IsSound) (hrule : record.ruleId = rule.id)
    (hengine : record.engine = e.name) {r : Lock.Row}
    (hr : w.database.locks.rowOf ⟨rule.id, e.name⟩ = some r) :
    ∃ o, Agrees e rule w.around record.history (carryOut e rule record w).1 o ∧
      Lock.Table.Appended ⟨rule.id, e.name⟩ o w.database.locks
        (carryOut e rule record w).2.database.locks ∧
      (carryOut e rule record w).2.IsSound := by
  obtain ⟨husable, hagrees⟩ := agrees_reconcile he rule record h.usable
  have hafter := h.withAround husable
  have htimed : (outcomeOf rule (reconcile e rule record w.around).1 w.around.now
      (reconcile e rule record w.around).2.now).IsTimed :=
    ⟨⟨_, h.usable.now, rfl⟩, ⟨_, husable.now, rfl⟩⟩
  obtain ⟨w', heq, happended, _, hsound⟩ :=
    hafter.finishLock (k := ⟨rule.id, e.name⟩) hrule hengine hr htimed
  refine ⟨_, hagrees w.around.now (reconcile e rule record w.around).2.now, ?_⟩
  rw [carryOut]
  simp only [heq]
  exact ⟨happended, hsound⟩

/-- **One rule is dealt with**, and the world stays sound. -/
theorem applyRule_dealt (mode : Mode) {e : Engine σ} (he : e.KeepsStorage) (rule : Rule)
    {w : World σ} (h : w.IsSound) :
    Dealt mode e rule w (applyRule mode e rule w).1 (applyRule mode e rule w).2 ∧
      (applyRule mode e rule w).2.IsSound := by
  have hasked := h.withAround (he.admits rule w.around h.usable)
  have hattempt : attempt mode e rule w =
      (World.startLock { w with around := (e.admits rule w.around).2 } mode rule.id e.name).1 := rfl
  rcases hadmits : e.admits rule w.around with ⟨f | b, s⟩
  · -- the engine did not answer
    rw [hadmits] at hasked
    have hf := he.unlocked rule w.around f (by rw [hadmits])
    have happly : applyRule mode e rule w =
        (⟨rule.id, e.name, .failed, "", some f.text⟩, { w with around := s }) := by
      rw [applyRule, hadmits, ← refused_of_not_isLocked _ _ hf]
    rw [happly]
    exact ⟨.unanswered f _ (by rw [hadmits]) rfl, hasked⟩
  rw [hadmits] at hasked hattempt
  cases b with
  | false =>
    have happly : applyRule mode e rule w =
        (⟨rule.id, e.name, .notAllowed, "", none⟩, { w with around := s }) := by
      rw [applyRule, hadmits]
    rw [happly]
    exact ⟨.notAllowed _ (by rw [hadmits]) rfl, hasked⟩
  | true =>
    rcases hasked.startLock_cases mode ⟨rule.id, e.name⟩ with
      ⟨f, w', heq, hlocks, hsound⟩ |
      ⟨record, w', heq, hrule, hengine, hhistory, htaken, haround, hsound⟩
    · -- the lock was not taken
      have happly : applyRule mode e rule w = (refused rule.id e.name f, w') := by
        rw [applyRule, hadmits]
        simp only [heq]
      have hstart : attempt mode e rule w = .error f := hattempt.trans (congrArg Prod.fst heq)
      rw [happly]
      refine ⟨?_, hsound⟩
      cases hf : f.isLocked with
      | true =>
        rw [refused_of_isLocked _ _ hf]
        exact .locked f w' (by rw [hadmits]) hstart hf hlocks
      | false =>
        rw [refused_of_not_isLocked _ _ hf]
        exact .notStarted f w' (by rw [hadmits]) hstart hf hlocks
    · -- the lock was taken, and is released again
      have happly : applyRule mode e rule w = carryOut e rule record w' := by
        rw [applyRule, hadmits]
        simp only [heq]
      have hstart : attempt mode e rule w = .ok record := hattempt.trans (congrArg Prod.fst heq)
      obtain ⟨r, hr, _⟩ := htaken.row
      obtain ⟨o, hagrees, happended, hsound'⟩ := carryOut_appended he rule hsound hrule hengine hr
      rw [happly]
      have hs : w'.around = (e.admits rule w.around).2 := by rw [haround, hadmits]
      rw [hhistory, hs] at hagrees
      exact ⟨.carriedOut record _ o _ (by rw [hadmits]) hstart hagrees
        (htaken.appended happended), hsound'⟩

/-! ## Whole passes -/

/-- What dealing with rules by one engine came to, one after the other. -/
inductive DealtAll (mode : Mode) (e : Engine σ) :
    List Rule → World σ → List RuleResult → World σ → Prop
  | nil (w : World σ) : DealtAll mode e [] w [] w
  | cons {rule : Rule} {rules : List Rule} {w w' w'' : World σ} {r : RuleResult}
      {results : List RuleResult} (first : Dealt mode e rule w r w')
      (rest : DealtAll mode e rules w' results w'') :
      DealtAll mode e (rule :: rules) w (r :: results) w''

/-- What a pass came to, one engine after the other; the start and the end of an engine's part leave
storage alone. -/
inductive Passed (mode : Mode) (rules : List Rule) :
    List (Engine σ) → World σ → List EngineResult → World σ → Prop
  | nil (w : World σ) : Passed mode rules [] w [] w
  | cons {e : Engine σ} {engines : List (Engine σ)} {w w' w'' : World σ}
      {results : List RuleResult} {more : List EngineResult}
      (first : DealtAll mode e rules { w with around := (e.begin w.around).2 } results w')
      (rest : Passed mode rules engines { w' with around := (e.finish w'.around).2 } more w'') :
      Passed mode rules (e :: engines) w (⟨e.name, results⟩ :: more) w''

theorem applyRules_dealt (mode : Mode) {e : Engine σ} (he : e.KeepsStorage) (rules : List Rule)
    {w : World σ} (h : w.IsSound) :
    DealtAll mode e rules w (applyRules mode e rules w).1 (applyRules mode e rules w).2 ∧
      (applyRules mode e rules w).2.IsSound := by
  induction rules generalizing w with
  | nil => exact ⟨.nil w, h⟩
  | cons rule rules ih =>
    obtain ⟨hfirst, hsound⟩ := applyRule_dealt mode he rule h
    obtain ⟨hrest, hsound'⟩ := ih hsound
    exact ⟨.cons hfirst hrest, hsound'⟩

theorem applyEngines_passed (mode : Mode) (rules : List Rule) {engines : List (Engine σ)}
    (he : ∀ e ∈ engines, e.KeepsStorage) {w : World σ} (h : w.IsSound) :
    Passed mode rules engines w (applyEngines mode rules engines w).1
        (applyEngines mode rules engines w).2 ∧
      (applyEngines mode rules engines w).2.IsSound := by
  induction engines generalizing w with
  | nil => exact ⟨.nil w, h⟩
  | cons e engines ih =>
    have hkeeps := he e (List.mem_cons_self ..)
    have hbegun := h.withAround (hkeeps.begin w.around h.usable)
    obtain ⟨hfirst, hsound⟩ := applyRules_dealt mode hkeeps rules hbegun
    have hfinished := hsound.withAround (hkeeps.finish _ hsound.usable)
    obtain ⟨hrest, hsound'⟩ := ih (fun e' he' => he e' (List.mem_cons_of_mem _ he')) hfinished
    exact ⟨.cons hfirst hrest, hsound'⟩

theorem Dealt.names {mode : Mode} {e : Engine σ} {rule : Rule} {w w' : World σ} {r : RuleResult}
    (h : Dealt mode e rule w r w') : r.ruleId = rule.id ∧ r.engine = e.name := by
  cases h with
  | unanswered => exact ⟨rfl, rfl⟩
  | notAllowed => exact ⟨rfl, rfl⟩
  | locked => exact ⟨rfl, rfl⟩
  | notStarted => exact ⟨rfl, rfl⟩
  | carriedOut _ _ _ _ _ _ hagrees _ => exact ⟨hagrees.ruleId, hagrees.engine⟩

/-- There is one result for each rule, in the order of the rules. -/
theorem DealtAll.names {mode : Mode} {e : Engine σ} {rules : List Rule} {w w' : World σ}
    {results : List RuleResult} (h : DealtAll mode e rules w results w') :
    results.map (·.ruleId) = rules.map (·.id) ∧ ∀ r ∈ results, r.engine = e.name := by
  induction h with
  | nil w => exact ⟨rfl, by simp⟩
  | cons first _ ih =>
    obtain ⟨hrule, hengine⟩ := first.names
    refine ⟨by rw [List.map_cons, List.map_cons, hrule, ih.1], ?_⟩
    intro r hr
    rcases List.mem_cons.mp hr with rfl | hr
    · exact hengine
    · exact ih.2 r hr

/-- There is one entry for each engine, in the order of the engines. -/
theorem Passed.names {mode : Mode} {rules : List Rule} {engines : List (Engine σ)} {w w' : World σ}
    {entries : List EngineResult} (h : Passed mode rules engines w entries w') :
    entries.map (·.engine) = engines.map (·.name) ∧ ∀ entry ∈ entries,
      entry.rules.map (·.ruleId) = rules.map (·.id) ∧
        ∀ r ∈ entry.rules, r.engine = entry.engine := by
  induction h with
  | nil w => exact ⟨rfl, by simp⟩
  | cons first _ ih =>
    refine ⟨by rw [List.map_cons, List.map_cons, ih.1], ?_⟩
    intro entry hentry
    rcases List.mem_cons.mp hentry with rfl | hentry
    · exact first.names
    · exact ih.2 entry hentry

/-- **A pass is total, keeps failures to themselves and records what happened.**  Whatever rules it
is given, whatever its engines do and fail at, and whatever the records of locks were before, its
result counts the rules, has one entry for each engine and in it one result for each rule, and each
rule was dealt with as its result and its record say. -/
theorem run_dealt (mode : Mode) {engines : List (Engine σ)} (he : ∀ e ∈ engines, e.KeepsStorage)
    (rules : List Rule) {w : World σ} (husable : w.around.IsUsable)
    (hprepared : w.database.version.isSome = true) (hlocks : Lock.Reachable w.database.locks) :
    (run mode engines rules w).1.considered = rules.length ∧
      (run mode engines rules w).1.engines.map (·.engine) = engines.map (·.name) ∧
      (∀ entry ∈ (run mode engines rules w).1.engines,
        entry.rules.map (·.ruleId) = rules.map (·.id) ∧
          ∀ r ∈ entry.rules, r.engine = entry.engine) ∧
      Passed mode rules engines w (run mode engines rules w).1.engines
        (run mode engines rules w).2 := by
  have hsound : w.IsSound := ⟨husable, hprepared, hlocks.isSound⟩
  have hpassed := (applyEngines_passed mode rules he hsound).1
  exact ⟨rfl, hpassed.names.1, hpassed.names.2, hpassed⟩

/-- An engine at which everything fails but the question whether it deals with a rule, without any
words. -/
def failingEngine : Engine Unit where
  name := "failing"
  sort := "Failing"
  begin s := (.error (.runtime ""), s)
  reconcile _ s := (.error (.runtime ""), s)
  finish s := (.error (.runtime ""), s)

/-- A rule from nowhere to nowhere. -/
def emptyRule : Rule := ⟨"rule", "", .empty, .empty, false, [], .utc 0, ""⟩

/-- A world without rules and locks. -/
def emptyWorld : World Unit where
  database := { Storage.Database.blank "" with version := some 1 }
  expire := 0
  ids := (0 : Nat)
  keepAlive := .idle
  pings := []
  around := ⟨0, true, (), none⟩

/-- A pass of a failing engine over a rule given twice. -/
theorem run_dealt_failingEngine :
    failingEngine.KeepsStorage ∧ Lock.Reachable emptyWorld.database.locks ∧
      Passed ⟨0, false⟩ [emptyRule, emptyRule] [failingEngine] emptyWorld
        (run ⟨0, false⟩ [failingEngine] [emptyRule, emptyRule] emptyWorld).1.engines
        (run ⟨0, false⟩ [failingEngine] [emptyRule, emptyRule] emptyWorld).2 := by
  have hkeeps : failingEngine.KeepsStorage :=
    ⟨⟨fun _ h => h, fun _ _ h => h, fun _ _ h => h, fun _ h => h⟩, fun _ _ _ h => by cases h⟩
  have hreachable : Lock.Reachable emptyWorld.database.locks := ⟨0, [], by simp, rfl⟩
  have hengines : ∀ e ∈ [failingEngine], e.KeepsStorage := by
    intro e he
    rw [List.mem_singleton.mp he]
    exact hkeeps
  exact ⟨hkeeps, hreachable, (run_dealt ⟨0, false⟩ hengines [emptyRule, emptyRule]
    ⟨rfl, by decide, rfl⟩ rfl hreachable).2.2.2⟩

end Pass

end AccessRules
