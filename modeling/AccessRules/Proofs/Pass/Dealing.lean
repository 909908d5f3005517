import AccessRules.Proofs.Pass.Steps

/-!
# Dealings of engines with rules

**Program** — what a pass does for one engine and one rule (`Pass.applyRule`), when at any time the
connection may be lost or storage get into trouble, and come back.

**Spec** — either the lock is not taken, and then the rule is left alone and no record changes
(`Dealing.left_of_not_takesLock`); or it is taken, and then the rule is carried out with its record
as it was (`Dealing.carriedOut_of_takesLock`), and the outcome of the result is appended to the
record, unless storage cannot be written by then (`CarriedOut.cases`).

**Crux** — that an engine reconciles a rule cannot be seen in a result.  It is said by what
reconciling may change: what becomes of the surroundings is what *any* way of reconciling would make
of them (`Reconciles`), or the way of reconciling makes no difference at all (`Spares`).

An engine may fail at anything, move the clock within the calendar, and do as it likes with the
connection and with storage (`Engine.KeepsTime`).
-/

namespace AccessRules

open Calendar

/-- Storage can be written in these surroundings, once its tables are made. -/
def Surroundings.letsWrite {σ : Type} (s : Surroundings σ) : Bool := s.connected && s.trouble.isNone

/-- An engine that leaves the clock within the calendar. -/
abbrev Engine.KeepsTime {σ : Type} (e : Engine σ) : Prop := e.Keeps fun s => inCalendar s.now = true

namespace Pass

variable {σ : Type}

/-! ## Worlds in which nothing is promised about storage -/

/-- A world whose clock is within the calendar and whose records can be read; whether storage can be
used is left open. -/
structure World.IsReadable (w : World σ) : Prop where
  now : inCalendar w.around.now = true
  locks : w.database.locks.IsSound

namespace World

theorem IsReadable.withAround {w : World σ} (h : w.IsReadable) {s : Surroundings σ}
    (hs : inCalendar s.now = true) : World.IsReadable { w with around := s } :=
  ⟨hs, h.locks⟩

theorem startLock_around (w : World σ) (mode : Mode) (ruleId engine : String) :
    (w.startLock mode ruleId engine).2.around = w.around := by
  rw [startLock]
  split <;> rfl

/-- Storage can be written only over an open connection and out of trouble. -/
theorem canWrite_cases (w : World σ) (h : w.IsReadable) (operation table : String) :
    w.IsSound ∨ ∃ f, w.database.canWrite w.around.connected operation table w.around.trouble =
      .error f := by
  cases hcan : w.database.canWrite w.around.connected operation table w.around.trouble with
  | error f => exact .inr ⟨f, rfl⟩
  | ok _ =>
    obtain ⟨hconnected, htrouble, hversion⟩ := Storage.Database.canWrite_eq_ok_iff.mp hcan
    exact .inl ⟨⟨hconnected, h.now, htrouble⟩, hversion, h.locks⟩

/-- **Taking a lock in a readable world** is refused and changes no record, or the world is
sound. -/
theorem IsReadable.startLock_cases {w : World σ} (h : w.IsReadable) (mode : Mode) (k : Lock.Key) :
    (∃ f w', w.startLock mode k.ruleId k.engine = (.error f, w') ∧
      w'.database.locks = w.database.locks ∧ w'.around = w.around) ∨
    (∃ record w', w.startLock mode k.ruleId k.engine = (.ok record, w') ∧
      record.ruleId = k.ruleId ∧ record.engine = k.engine ∧
      record.history = w.database.locks.outcomesOf k ∧
      Lock.Table.Taken k w.database.locks w'.database.locks ∧ w'.around = w.around ∧
      w'.IsSound) := by
  rcases w.canWrite_cases h "start_sync" Storage.Database.locksTable with hsound | ⟨f, hf⟩
  · rcases hsound.startLock_cases mode k with ⟨f, w', heq, hlocks, _⟩ | htaken
    · have haround := w.startLock_around mode k.ruleId k.engine
      rw [heq] at haround
      exact .inl ⟨f, w', heq, hlocks, haround⟩
    · exact .inr htaken
  · refine .inl ⟨f, w, ?_, rfl, rfl⟩
    rw [startLock, Storage.Database.startLock, hf]

/-- Where storage cannot be written no lock is released. -/
theorem finishLock_of_not_letsWrite {w : World σ} (h : w.around.letsWrite = false)
    (record : Lock.Record) (o : Lock.Outcome) :
    (w.finishLock record o).2.database.locks = w.database.locks := by
  rw [finishLock, Storage.Database.finishLock, tell_database, tell_around]
  cases hcan : w.database.canWrite w.around.connected "end_sync" Storage.Database.locksTable
      w.around.trouble with
  | error f => rfl
  | ok _ =>
    obtain ⟨hconnected, htrouble, _⟩ := Storage.Database.canWrite_eq_ok_iff.mp hcan
    simp [Surroundings.letsWrite, hconnected, htrouble] at h

end World

/-! ## The four ways of dealing with a rule -/

section Ways

variable {mode : Mode} {e : Engine σ} {rule : Rule} {w w' : World σ}

theorem applyRule_of_unanswered {f : Failure}
    (hadmits : (e.admits rule w.around).1 = .error f) :
    applyRule mode e rule w =
      (refused rule.id e.name f, { w with around := (e.admits rule w.around).2 }) := by
  rw [applyRule]
  rcases hanswer : e.admits rule w.around with ⟨answer, s⟩
  rw [hanswer] at hadmits
  obtain rfl : answer = .error f := hadmits
  rfl

theorem applyRule_of_notAllowed (hadmits : (e.admits rule w.around).1 = .ok false) :
    applyRule mode e rule w = (⟨rule.id, e.name, .notAllowed, "", none⟩,
      { w with around := (e.admits rule w.around).2 }) := by
  rw [applyRule]
  rcases hanswer : e.admits rule w.around with ⟨answer, s⟩
  rw [hanswer] at hadmits
  obtain rfl : answer = .ok false := hadmits
  rfl

theorem applyRule_of_allowed (hadmits : (e.admits rule w.around).1 = .ok true) :
    applyRule mode e rule w =
      match World.startLock { w with around := (e.admits rule w.around).2 } mode rule.id e.name with
      | (.error f, w) => (refused rule.id e.name f, w)
      | (.ok record, w) => carryOut e rule record w := by
  rw [applyRule]
  rcases hanswer : e.admits rule w.around with ⟨answer, s⟩
  rw [hanswer] at hadmits
  obtain rfl : answer = .ok true := hadmits
  rfl

/-- A rule whose lock is not given is refused. -/
theorem applyRule_of_refused {f : Failure} (hadmits : (e.admits rule w.around).1 = .ok true)
    (hstart : World.startLock { w with around := (e.admits rule w.around).2 } mode rule.id e.name =
      (.error f, w')) : applyRule mode e rule w = (refused rule.id e.name f, w') := by
  rw [applyRule_of_allowed hadmits, hstart]

/-- A rule whose lock is taken is carried out. -/
theorem applyRule_of_taken {record : Lock.Record}
    (hadmits : (e.admits rule w.around).1 = .ok true)
    (hstart : World.startLock { w with around := (e.admits rule w.around).2 } mode rule.id e.name =
      (.ok record, w')) : applyRule mode e rule w = carryOut e rule record w' := by
  rw [applyRule_of_allowed hadmits, hstart]

theorem status_refused (ruleId engine : String) (f : Failure) :
    (refused ruleId engine f).status = .locked ∨ (refused ruleId engine f).status = .failed := by
  unfold refused
  split
  · exact .inl rfl
  · exact .inr rfl

end Ways

/-! ## Dealings -/

/-- An engine's dealing with a rule in the course of a pass, and the world it met. -/
structure Dealing (σ : Type) where
  mode : Mode
  engine : Engine σ
  rule : Rule
  world : World σ

namespace Dealing

/-- The key whose lock a dealing asks for. -/
def key (d : Dealing σ) : Lock.Key := ⟨d.rule.id, d.engine.name⟩

/-- What a pass does in a dealing. -/
def deal (d : Dealing σ) : RuleResult × World σ := applyRule d.mode d.engine d.rule d.world

/-- The result a pass keeps of a dealing. -/
def result (d : Dealing σ) : RuleResult := d.deal.1

/-- The world after a dealing. -/
def after (d : Dealing σ) : World σ := d.deal.2

/-- The surroundings after the engine was asked whether it deals with the rule. -/
def asked (d : Dealing σ) : Surroundings σ := (d.engine.admits d.rule d.world.around).2

/-- The dealing as it would be if the engine reconciled rules in another way. -/
def withReconcile (d : Dealing σ) (act : Rule → Engine.Act σ Engine.Report) : Dealing σ :=
  { d with engine := { d.engine with reconcile := act } }

/-- The engine deals with the rule and gets the lock. -/
def TakesLock (d : Dealing σ) : Prop :=
  (d.engine.admits d.rule d.world.around).1 = .ok true ∧
    ∃ record, attempt d.mode d.engine d.rule d.world = .ok record

/-- The rule is reconciled: whatever reconciling makes of the surroundings is what becomes of
them. -/
def Reconciles (d : Dealing σ) : Prop :=
  ∀ act, (d.withReconcile act).after.around = (act d.rule d.asked).2

/-- The rule is not reconciled: reconciling may be anything without a difference. -/
def Spares (d : Dealing σ) : Prop :=
  ∀ act, (d.withReconcile act).result = d.result ∧ (d.withReconcile act).after = d.after

/-- The rule is reconciled, and that succeeds. -/
def Succeeds (d : Dealing σ) : Prop := d.Reconciles ∧ d.result.status = .succeeded

/-- The rule is reconciled, that succeeds, and storage can be written when the lock is released. -/
def Completes (d : Dealing σ) : Prop := d.Succeeds ∧ d.after.around.letsWrite = true

/-- The rule is left alone: someone else has the lock, the engine does not deal with the rule or has
removed it already, or the engine failed to say so or to get the lock. -/
def IsLeft (d : Dealing σ) : Prop :=
  d.result.status = .locked ∨ d.result.status = .notAllowed ∨ d.result.status = .alreadyRemoved ∨
    (d.result.status = .failed ∧
      ((∃ f, (d.engine.admits d.rule d.world.around).1 = .error f) ∨
        ∃ f, attempt d.mode d.engine d.rule d.world = .error f))

/-- A rule that is spared is not reconciled. -/
theorem Spares.not_reconciles {d : Dealing σ} (h : d.Spares) : ¬ d.Reconciles := by
  intro hreconciles
  -- reconciling that moves the clock on would be seen
  let moves (n : Int) : Rule → Engine.Act σ Engine.Report := fun _ s =>
    (.ok .nothing, { s with now := s.now + n })
  have hfirst := (hreconciles (moves 0)).symm.trans (congrArg World.around (h (moves 0)).2)
  have hsecond := (hreconciles (moves 1)).symm.trans (congrArg World.around (h (moves 1)).2)
  have hnow : d.asked.now + 0 = d.asked.now + 1 :=
    congrArg Surroundings.now (hfirst.trans hsecond.symm)
  lia

/-- A rule that is refused in any way of reconciling is left and spared. -/
theorem left_of_refused {d : Dealing σ} {f : Failure} {w : World σ}
    (hdeal : ∀ act, (d.withReconcile act).deal = (refused d.rule.id d.engine.name f, w))
    (hwhy : (d.engine.admits d.rule d.world.around).1 = .error f ∨
      attempt d.mode d.engine d.rule d.world = .error f) : d.Spares ∧ d.IsLeft := by
  have hself : d.deal = (refused d.rule.id d.engine.name f, w) := hdeal d.engine.reconcile
  refine ⟨fun act => ?_, ?_⟩
  · rw [result, result, after, after, hdeal act, hself]
    exact ⟨rfl, rfl⟩
  · rw [IsLeft, result, hself]
    rcases status_refused d.rule.id d.engine.name f with hstatus | hstatus
    · exact .inl hstatus
    · exact .inr (.inr (.inr ⟨hstatus, hwhy.imp (fun h => ⟨f, h⟩) fun h => ⟨f, h⟩⟩))

/-- Where no lock is taken no record changes, and the rule is left and spared. -/
theorem left_of_not_takesLock {d : Dealing σ} (he : d.engine.KeepsTime) (h : d.world.IsReadable)
    (hno : ¬ d.TakesLock) :
    d.Spares ∧ d.IsLeft ∧ d.after.database.locks = d.world.database.locks ∧
      d.after.around = d.asked := by
  have hasked := h.withAround (he.admits d.rule d.world.around h.now)
  -- the engine does not say whether it deals with the rule, or does not, or does and gets no lock
  rcases hadmits : (d.engine.admits d.rule d.world.around).1 with f | b
  · have hdeal : ∀ act, (d.withReconcile act).deal =
        (refused d.rule.id d.engine.name f, { d.world with around := d.asked }) := fun act =>
      applyRule_of_unanswered (e := { d.engine with reconcile := act }) hadmits
    obtain ⟨hspares, hleft⟩ := left_of_refused hdeal (.inl hadmits)
    have hafter : d.after = { d.world with around := d.asked } :=
      congrArg Prod.snd (hdeal d.engine.reconcile)
    rw [hafter]
    exact ⟨hspares, hleft, rfl, rfl⟩
  cases b with
  | false =>
    have hdeal : ∀ act, (d.withReconcile act).deal =
        (⟨d.rule.id, d.engine.name, .notAllowed, "", none⟩,
          { d.world with around := d.asked }) := fun act =>
      applyRule_of_notAllowed (e := { d.engine with reconcile := act }) hadmits
    have hself : d.deal = _ := hdeal d.engine.reconcile
    refine ⟨fun act => ?_, ?_, ?_⟩
    · rw [result, result, after, after, hdeal act, hself]
      exact ⟨rfl, rfl⟩
    · rw [IsLeft, result, hself]
      exact .inr (.inl rfl)
    · rw [after, hself]
      exact ⟨rfl, rfl⟩
  | true =>
    rcases hasked.startLock_cases d.mode d.key with
      ⟨f, w, heq, hlocks, haround⟩ | ⟨record, w, heq, _⟩
    · have hdeal : ∀ act, (d.withReconcile act).deal =
          (refused d.rule.id d.engine.name f, w) := fun act =>
        applyRule_of_refused (e := { d.engine with reconcile := act }) hadmits heq
      obtain ⟨hspares, hleft⟩ := left_of_refused hdeal (.inr (congrArg Prod.fst heq))
      have hafter : d.after = w := congrArg Prod.snd (hdeal d.engine.reconcile)
      rw [hafter]
      exact ⟨hspares, hleft, hlocks, haround⟩
    · exact absurd ⟨hadmits, record, congrArg Prod.fst heq⟩ hno

/-- The lock was taken in a dealing: the rule is carried out with its record as it was and in the
world with the lock, however the engine reconciles rules. -/
structure CarriedOut (d : Dealing σ) (record : Lock.Record) (w : World σ) : Prop where
  ruleId : record.ruleId = d.rule.id
  engine : record.engine = d.engine.name
  history : record.history = d.world.database.locks.outcomesOf d.key
  taken : Lock.Table.Taken d.key d.world.database.locks w.database.locks
  around : w.around = d.asked
  sound : w.IsSound
  deals : ∀ act, (d.withReconcile act).deal =
    carryOut { d.engine with reconcile := act } d.rule record w

theorem carriedOut_of_takesLock {d : Dealing σ} (he : d.engine.KeepsTime) (h : d.world.IsReadable)
    (htakes : d.TakesLock) : ∃ record w, d.CarriedOut record w := by
  have hasked := h.withAround (he.admits d.rule d.world.around h.now)
  obtain ⟨hadmits, record, hattempt⟩ := htakes
  rcases hasked.startLock_cases d.mode d.key with
    ⟨f, w, heq, _⟩ | ⟨record', w, heq, hrule, hengine, hhistory, htaken, haround, hsound⟩
  · have hrefused : attempt d.mode d.engine d.rule d.world = .error f := congrArg Prod.fst heq
    rw [hrefused] at hattempt
    cases hattempt
  · exact ⟨record', w, hrule, hengine, hhistory, htaken, haround, hsound,
      fun act => applyRule_of_taken (e := { d.engine with reconcile := act }) hadmits heq⟩

end Dealing

/-! ## Carrying out a rule -/

section CarryOut

variable {e : Engine σ} {rule : Rule} {record : Lock.Record} {w : World σ}

theorem carryOut_fst (e : Engine σ) (rule : Rule) (record : Lock.Record) (w : World σ) :
    (carryOut e rule record w).1 = (reconcile e rule record w.around).1 := rfl

theorem carryOut_around (e : Engine σ) (rule : Rule) (record : Lock.Record) (w : World σ) :
    (carryOut e rule record w).2.around = (reconcile e rule record w.around).2 := rfl

/-- A rule whose removal is done is carried out without its engine. -/
theorem reconcile_of_isGone (h : isGone rule record.latest? = true) (e : Engine σ)
    (s : Surroundings σ) :
    reconcile e rule record s = (⟨rule.id, e.name, .alreadyRemoved, "", none⟩, s) := by
  rw [reconcile, if_pos h]

/-- Any other rule is reconciled; it fails if that fails. -/
theorem reconcile_of_not_isGone (h : isGone rule record.latest? = false) (e : Engine σ)
    (s : Surroundings σ) :
    (reconcile e rule record s).2 = (e.reconcile rule s).2 ∧
      (((reconcile e rule record s).1.status = .succeeded ∧
          (reconcile e rule record s).1.error = none) ∨
        ((reconcile e rule record s).1.status = .failed ∧
          ∃ text, (reconcile e rule record s).1.error = some text)) := by
  rw [reconcile, h, if_neg (by decide)]
  rcases e.reconcile rule s with ⟨f | report, s'⟩
  · exact ⟨rfl, .inr ⟨rfl, f.text, rfl⟩⟩
  · exact ⟨rfl, .inl ⟨rfl, rfl⟩⟩

theorem inCalendar_reconcile (he : e.KeepsTime) (rule : Rule) (record : Lock.Record)
    {s : Surroundings σ} (hs : inCalendar s.now = true) :
    inCalendar (reconcile e rule record s).2.now = true := by
  by_cases hgone : isGone rule record.latest? = true
  · rw [reconcile_of_isGone hgone]
    exact hs
  · rw [(reconcile_of_not_isGone (Bool.eq_false_iff.mpr hgone) e s).1]
    exact he.reconcile rule s hs

/-- **Carrying out a rule** appends the outcome of its result if storage can be written at the end,
and changes no record otherwise. -/
theorem carryOut_cases (he : e.KeepsTime) (h : w.IsSound) (hrule : record.ruleId = rule.id)
    (hengine : record.engine = e.name) {r : Lock.Row}
    (hr : w.database.locks.rowOf ⟨rule.id, e.name⟩ = some r) :
    (carryOut e rule record w).2.database.locks.IsSound ∧
      (((carryOut e rule record w).2.around.letsWrite = true ∧
          ∃ started ended, Lock.Table.Appended ⟨rule.id, e.name⟩
            (outcomeOf rule (carryOut e rule record w).1 started ended) w.database.locks
            (carryOut e rule record w).2.database.locks) ∨
        ((carryOut e rule record w).2.around.letsWrite = false ∧
          (carryOut e rule record w).2.database.locks = w.database.locks)) := by
  have hnow := inCalendar_reconcile he rule record h.usable.now
  rw [carryOut_around, carryOut_fst]
  cases hwrite : (reconcile e rule record w.around).2.letsWrite with
  | true =>
    obtain ⟨hconnected, htrouble⟩ := Bool.and_eq_true_iff.mp hwrite
    -- both times of the outcome are within the calendar, so it can be read again
    have hafter := h.withAround ⟨hconnected, hnow, Option.isNone_iff_eq_none.mp htrouble⟩
    have htimed : (outcomeOf rule (reconcile e rule record w.around).1 w.around.now
        (reconcile e rule record w.around).2.now).IsTimed :=
      ⟨⟨_, h.usable.now, rfl⟩, ⟨_, hnow, rfl⟩⟩
    obtain ⟨w', heq, happended, _, hsound⟩ :=
      hafter.finishLock (k := ⟨rule.id, e.name⟩) hrule hengine hr htimed
    have hworld : (carryOut e rule record w).2 = w' := congrArg Prod.snd heq
    rw [hworld]
    exact ⟨hsound.locks, .inl ⟨rfl, _, _, happended⟩⟩
  | false =>
    have hlocks : (carryOut e rule record w).2.database.locks = w.database.locks :=
      World.finishLock_of_not_letsWrite
        (w := { w with around := (reconcile e rule record w.around).2 }) hwrite record _
    rw [hlocks]
    exact ⟨h.locks, .inr ⟨rfl, rfl⟩⟩

end CarryOut

/-! ## What one dealing does -/

namespace Dealing

namespace CarriedOut

variable {d : Dealing σ} {record : Lock.Record} {w : World σ}

theorem deal (h : d.CarriedOut record w) : d.deal = carryOut d.engine d.rule record w :=
  h.deals d.engine.reconcile

theorem result (h : d.CarriedOut record w) :
    d.result = (reconcile d.engine d.rule record w.around).1 := by
  rw [Dealing.result, h.deal, carryOut_fst]

theorem after_around (h : d.CarriedOut record w) :
    d.after.around = (reconcile d.engine d.rule record d.asked).2 := by
  rw [after, h.deal, carryOut_around, h.around]

/-- The outcome of the result was appended, or storage cannot be written and the outcomes are those
from before; records of other keys are not touched. -/
theorem cases (h : d.CarriedOut record w) (he : d.engine.KeepsTime) :
    d.after.database.locks.IsSound ∧
      ((d.after.around.letsWrite = true ∧
          ∃ started ended, Lock.Table.Appended d.key (outcomeOf d.rule d.result started ended)
            d.world.database.locks d.after.database.locks) ∨
        (d.after.around.letsWrite = false ∧
          d.after.database.locks.outcomesOf d.key = d.world.database.locks.outcomesOf d.key)) ∧
      ∀ k, k ≠ d.key → d.after.database.locks.rowOf k = d.world.database.locks.rowOf k := by
  obtain ⟨r, hr, _⟩ := h.taken.row
  obtain ⟨hsound, hcases⟩ := carryOut_cases he h.sound h.ruleId h.engine hr
  rw [← h.deal] at hsound hcases
  refine ⟨hsound, ?_⟩
  rcases hcases with ⟨hwrite, started, ended, happended⟩ | ⟨hwrite, hlocks⟩
  · have hall := h.taken.appended happended
    exact ⟨.inl ⟨hwrite, started, ended, hall⟩, hall.others⟩
  · have hsame : d.after.database.locks = w.database.locks := hlocks
    rw [hsame]
    exact ⟨.inr ⟨hwrite, h.taken.outcomes⟩, h.taken.others⟩

end CarriedOut

/-- A dealing leaves the world readable and the records of other keys as they were. -/
theorem after_frame {d : Dealing σ} (he : d.engine.KeepsTime) (h : d.world.IsReadable) :
    d.after.IsReadable ∧
      ∀ k, k ≠ d.key → d.after.database.locks.rowOf k = d.world.database.locks.rowOf k := by
  have hasked : inCalendar d.asked.now = true := he.admits d.rule d.world.around h.now
  by_cases htakes : d.TakesLock
  · obtain ⟨record, w, hc⟩ := carriedOut_of_takesLock he h htakes
    obtain ⟨hsound, _, hothers⟩ := hc.cases he
    have hnow : inCalendar d.after.around.now = true := by
      rw [hc.after_around]
      exact inCalendar_reconcile he d.rule record hasked
    exact ⟨⟨hnow, hsound⟩, hothers⟩
  · obtain ⟨_, _, hlocks, haround⟩ := left_of_not_takesLock he h htakes
    refine ⟨⟨by rw [haround]; exact hasked, ?_⟩, fun k _ => by rw [hlocks]⟩
    rw [hlocks]
    exact h.locks

end Dealing

end Pass

end AccessRules
