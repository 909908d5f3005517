import AccessRules.Fault

/-!
# Results of passes

What a pass did with each rule by each engine, and what that adds up to.
-/

namespace AccessRules.Pass

/-- What became of a rule under an engine. -/
inductive Status where
  | succeeded
  | failed
  | notAllowed
  | locked
  | alreadyRemoved
  deriving DecidableEq, Repr

/-- The word for a status. -/
def Status.word : Status → String
  | .succeeded => "succeeded"
  | .failed => "failed"
  | .notAllowed => "not_allowed"
  | .locked => "locked"
  | .alreadyRemoved => "already_removed"

/-- All statuses. -/
def Status.all : List Status := [.succeeded, .failed, .notAllowed, .locked, .alreadyRemoved]

/-- What became of one rule under one engine.  There may be an error without words. -/
structure RuleResult where
  ruleId : String
  engine : String
  status : Status
  result : String
  error : Option String
  deriving DecidableEq, Repr

/-- What one engine did, rule by rule. -/
structure EngineResult where
  engine : String
  rules : List RuleResult
  deriving DecidableEq, Repr

/-- How many rules have a status. -/
def EngineResult.count (r : EngineResult) (s : Status) : Nat := r.rules.countP (·.status = s)

/-- What a whole pass did, engine by engine. -/
structure Result where
  considered : Nat
  engines : List EngineResult
  deriving DecidableEq, Repr

namespace Result

/-- How many rules failed, each counted under every engine. -/
def failed (r : Result) : Nat := r.engines.foldr (fun e n => e.count .failed + n) 0

/-- Whether no rule failed. -/
def isSuccess (r : Result) : Bool := r.failed == 0

/-- The result of the first engine of a name. -/
def ofEngine? (r : Result) (name : String) : Option EngineResult :=
  r.engines.find? (·.engine == name)

end Result

/-! ## As documents -/

/-- What became of a rule, as a document. -/
def RuleResult.document (r : RuleResult) : Value :=
  .list [.text r.ruleId, .text r.engine, .text r.status.word, .text r.result, .ofText? r.error]

/-- How many rules have each status that occurs. -/
def EngineResult.counts (r : EngineResult) : List (String × Value) :=
  Status.all.filterMap fun s => if r.count s = 0 then none else some (s.word, .int (r.count s))

/-- What an engine did, as a document; it says whether the engine is found in the result of the whole
pass. -/
def EngineResult.document (found : Bool) (r : EngineResult) : Value :=
  .record [("engine", .text r.engine), ("counts", .record r.counts),
    ("rules", .list (r.rules.map RuleResult.document)), ("found", .bool found)]

/-- What a pass did, by name. -/
def Result.entries (r : Result) : List (String × Value) :=
  [("rules_considered", .int r.considered), ("failed", .int r.failed),
    ("success", .bool r.isSuccess),
    ("strategies", .list (r.engines.map fun e => e.document (r.ofEngine? e.engine).isSome))]

end AccessRules.Pass
