import AccessRules.Fault

/-!
# The periodic loop

Passes are run over and over by a loop: it looks for rules, runs a pass over them, waits for an
interval, and begins again.  Failing to find rules or to run a pass only skips to the waiting.  The
loop returns when it finds, while waiting, that it was asked to stop; it then says so.  A disabled
loop returns at once.

A request to stop may come at any time.  It is kept for good, and whoever makes it learns whether
the loop has returned.
-/

namespace AccessRules.Pass.Periodic

/-- What the loop does next; `outside` it is not running. -/
inductive Phase (α : Type) where
  | outside
  | looking
  | passing (rules : List α)
  | waiting
  deriving DecidableEq, Repr

/-- The loop, whether it was asked to stop and whether it said that it returned. -/
structure Loop (α : Type) where
  disabled : Bool
  stopRequested : Bool
  returned : Bool
  phase : Phase α
  deriving DecidableEq, Repr

namespace Loop

variable {α σ : Type}

/-- A loop that was never entered. -/
def idle (disabled : Bool) : Loop α := ⟨disabled, false, false, .outside⟩

/-- Enters the loop. -/
def enter (l : Loop α) : Loop α :=
  if l.disabled then { l with returned := true, phase := .outside }
  else { l with returned := false, phase := .looking }

/-- Asks the loop to stop. -/
def requestStop (l : Loop α) : Loop α := { l with stopRequested := true }

/-- Asks the loop to stop and waits for it no longer than `timeout`; a loop that has not returned
by then is a failure. -/
def shutdown (timeout : Scalar) (l : Loop α) : Except Failure Unit × Loop α :=
  (if l.returned then .ok () else .error (.fault (.of (.shutdownTimeout timeout))), l.requestStop)

/-- What the loop works with: a way to look for rules, during which it may be asked to stop, and a
way to run a pass. -/
structure Service (α σ : Type) where
  find : Loop α → σ → Except Failure (List α) × Loop α × σ
  pass : List α → σ → Except Failure Unit × σ

/-- The next step of the loop. -/
def step (service : Service α σ) (l : Loop α) (s : σ) : Loop α × σ :=
  match l.phase with
  | .outside => (l, s)
  | .looking =>
    match service.find l s with
    | (.ok rules, l, s) => ({ l with phase := .passing rules }, s)
    | (.error _, l, s) => ({ l with phase := .waiting }, s)
  | .passing rules =>
    let (_, s) := service.pass rules s
    ({ l with phase := .waiting }, s)
  | .waiting =>
    if l.stopRequested then ({ l with phase := .outside, returned := true }, s)
    else ({ l with phase := .looking }, s)

/-- Steps until the loop has returned, at most `fuel` of them. -/
def steps (service : Service α σ) : Nat → Loop α → σ → Loop α × σ
  | 0, l, s => (l, s)
  | fuel + 1, l, s =>
    if l.phase matches .outside then (l, s)
    else
      let (l, s) := step service l s
      steps service fuel l s

/-- Enters the loop and runs it until it returns, for at most `passes` rounds. -/
def run (service : Service α σ) (passes : Nat) (l : Loop α) (s : σ) : Loop α × σ :=
  steps service (3 * passes) l.enter s

end Loop

end AccessRules.Pass.Periodic
