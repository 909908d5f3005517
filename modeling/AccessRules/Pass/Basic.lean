import AccessRules.Engine.Basic
import AccessRules.Lock.KeepAlive
import AccessRules.Pass.Result
import AccessRules.Storage.Database

/-!
# Passes

A pass brings rules into effect through one engine after the other, and each engine goes through the
rules in their order.  For each rule the engine is first asked whether it deals with it; then the
lock of the rule and the engine is taken, the rule is reconciled, and the lock is released with the
outcome.  A rule whose removal was the last thing the engine succeeded in is not reconciled again.

Nothing that goes wrong with a rule keeps the others from being dealt with: it is in the result of
that rule and nowhere else.  That a lock cannot be released is in no result at all; it stays taken
until it expires, and the outcome is lost.
-/

namespace AccessRules.Pass

open Calendar Storage

/-- What a pass works on. -/
structure World (σ : Type) where
  database : Database
  /-- how long a running lock lives without a sign of life -/
  expire : Duration
  ids : Supply
  keepAlive : Lock.KeepAlive
  /-- the signs of life that were given, the oldest first -/
  pings : List (List String)
  around : Surroundings σ

/-- How a pass goes about its rules. -/
structure Mode where
  /-- how long a rule is left alone after it was dealt with -/
  interval : Duration
  /-- whether locks are taken in any case -/
  force : Bool
  deriving DecidableEq, Repr

/-- A minute between two dealings with a rule. -/
def Mode.standardInterval : Duration := 60 * microsPerSecond

namespace World

variable {σ : Type}

/-- A sign of life that is only written down. -/
def notePing : Lock.Ping (List (List String)) := fun ids log => (.ok (), log ++ [ids])

/-- Tells the keeper of locks of an event. -/
def tell (e : Lock.Event) (w : World σ) : World σ :=
  let (keepAlive, pings) := (w.keepAlive.tell e).settle notePing w.pings
  { w with keepAlive := keepAlive, pings := pings }

/-- Takes the lock of a rule and an engine, and keeps it alive. -/
def startLock (w : World σ) (mode : Mode) (ruleId engine : String) :
    Except Failure Lock.Record × World σ :=
  match w.database.startLock w.around.connected w.expire
      ⟨mode.interval, ruleId, engine, mode.force⟩ w.around.now w.ids w.around.trouble with
  | (.error f, database, ids) => (.error f, { w with database := database, ids := ids })
  | (.ok record, database, ids) =>
    (.ok record, { w with database := database, ids := ids }.tell (.add record.id))

/-- Releases a lock with an outcome; it is no longer kept alive. -/
def finishLock (w : World σ) (record : Lock.Record) (o : Lock.Outcome) :
    Except Failure Unit × World σ :=
  let w := w.tell (.remove record.id)
  let (done, database) := w.database.finishLock w.around.connected record.ruleId record.engine o
    w.around.now w.around.trouble
  (done, { w with database := database })

end World

variable {σ : Type}

/-- The result of a rule that was not reconciled because of a failure: someone else's lock is no
error. -/
def refused (ruleId engine : String) (f : Failure) : RuleResult :=
  match f with
  | .fault ⟨.locked .., _, _, _, _⟩ => ⟨ruleId, engine, .locked, "", none⟩
  | f => ⟨ruleId, engine, .failed, "", some f.text⟩

/-- Whether the removal of a rule was the last thing that succeeded. -/
def isGone (rule : Rule) (latest : Option Lock.Outcome) : Bool :=
  rule.removed && latest.any fun o => o.removed && o.successful

/-- Reconciles a rule whose lock is held. -/
def reconcile (e : Engine σ) (rule : Rule) (record : Lock.Record) (s : Surroundings σ) :
    RuleResult × Surroundings σ :=
  if isGone rule record.latest? then (⟨rule.id, e.name, .alreadyRemoved, "", none⟩, s)
  else match e.reconcile rule s with
    | (.ok report, s) => (⟨rule.id, e.name, .succeeded, report.text, none⟩, s)
    | (.error f, s) => (⟨rule.id, e.name, .failed, "", some f.text⟩, s)

/-- The outcome of a rule with a result. -/
def outcomeOf (rule : Rule) (r : RuleResult) (started ended : Instant) : Lock.Outcome where
  started := .utc started
  ended := .utc ended
  successful := r.error.isNone
  removed := rule.removed
  error := r.error.getD ""
  result := r.result

/-- Reconciles a rule whose lock was taken, and releases the lock. -/
def carryOut (e : Engine σ) (rule : Rule) (record : Lock.Record) (w : World σ) :
    RuleResult × World σ :=
  let started := w.around.now
  let (result, around) := reconcile e rule record w.around
  let w := { w with around := around }
  let (_, w) := w.finishLock record (outcomeOf rule result started around.now)
  (result, w)

/-- Deals with one rule by one engine. -/
def applyRule (mode : Mode) (e : Engine σ) (rule : Rule) (w : World σ) : RuleResult × World σ :=
  match e.admits rule w.around with
  | (.error f, around) => (refused rule.id e.name f, { w with around := around })
  | (.ok false, around) => (⟨rule.id, e.name, .notAllowed, "", none⟩, { w with around := around })
  | (.ok true, around) =>
    match { w with around := around }.startLock mode rule.id e.name with
    | (.error f, w) => (refused rule.id e.name f, w)
    | (.ok record, w) => carryOut e rule record w

/-- Deals with rules by one engine, one after the other. -/
def applyRules (mode : Mode) (e : Engine σ) : List Rule → World σ → List RuleResult × World σ
  | [], w => ([], w)
  | rule :: rules, w =>
    let (result, w) := applyRule mode e rule w
    let (results, w) := applyRules mode e rules w
    (result :: results, w)

/-- One engine's part of a pass.  What goes wrong at its start or its end changes nothing. -/
def applyEngine (mode : Mode) (rules : List Rule) (e : Engine σ) (w : World σ) :
    EngineResult × World σ :=
  let (_, around) := e.begin w.around
  let (results, w) := applyRules mode e rules { w with around := around }
  let (_, around) := e.finish w.around
  (⟨e.name, results⟩, { w with around := around })

/-- The parts of all engines, one after the other. -/
def applyEngines (mode : Mode) (rules : List Rule) :
    List (Engine σ) → World σ → List EngineResult × World σ
  | [], w => ([], w)
  | e :: engines, w =>
    let (result, w) := applyEngine mode rules e w
    let (results, w) := applyEngines mode rules engines w
    (result :: results, w)

/-- A pass over rules. -/
def run (mode : Mode) (engines : List (Engine σ)) (rules : List Rule) (w : World σ) :
    Result × World σ :=
  let (results, w) := applyEngines mode rules engines w
  (⟨rules.length, results⟩, w)

end AccessRules.Pass
