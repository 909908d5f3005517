import AccessRules.Calendar.Stored
import AccessRules.Document.JsonReader
import AccessRules.Fault
import AccessRules.Lock.Record

/-!
# The table of locks

Locks are rows of texts: times as they are stored, the history as JSON.  There is one row for each
rule and engine that ever met.

- `start` takes the lock of a rule and an engine.  A row that is not running is free once its last
  sign of life is more than `after` ago; one that is running, only once it is more than the longer
  of `after` and the expiry of locks ago, because then its holder must have died.
- `ping` gives a sign of life for some rows.
- `finish` releases a lock and appends an outcome to its history, of which the last ten are kept.

Each of them acts at one instant.  Only for the hint of a refusal `start` reads the clock once more.
-/

namespace AccessRules.Lock

open Calendar

/-- The record of a rule and an engine as it is stored. -/
structure Row where
  id : String
  ruleId : String
  engine : String
  started : String
  ended : Option String
  pinged : String
  running : Bool
  history : String
  deriving DecidableEq, Repr

/-- All rows, the oldest first. -/
abbrev Table := List Row

/-- How many outcomes are kept of a rule and an engine. -/
def historyLimit : Nat := 10

/-- A stored time. -/
def readTime (s : String) : Except Failure Moment :=
  match Moment.ofIso? s with
  | some m => .ok m
  | none => .error (.unreadableTime s)

/-- The items of a stored history. -/
def readItems (s : String) : Except Failure (List Value) :=
  match Json.parse s.toList with
  | .ok (.list items) => .ok items
  | .ok _ => .ok []
  | .error f => .error (.badValue (f.message s.toList))

/-- A stored history. -/
def readHistory (s : String) : Except Failure (List Outcome) := do
  let items ← readItems s
  match ((Schema.list Outcome.read) (.list items)).reported "list[RuleSyncData]" with
  | .ok outcomes => .ok outcomes
  | .error report => .error (.mismatch report)

/-- A history as it is stored. -/
def historyText (items : List Value) : String := Json.render .spaced (.list items)

namespace Row

/-- The row of a lock that was never taken before. -/
def fresh (id ruleId engine : String) (now : Instant) : Row where
  id := id
  ruleId := ruleId
  engine := engine
  started := storedText now
  ended := none
  pinged := storedText now
  running := true
  history := "[]"

/-- The record a row stands for. -/
def record (r : Row) : Except Failure Record := do
  .ok ⟨r.id, r.ruleId, r.engine, ← readTime r.started, ← r.ended.mapM readTime,
    ← readTime r.pinged, r.running, ← readHistory r.history⟩

/-- What a row is read as: its texts are read, and all else is taken over. -/
structure IsReadAs (r : Row) (x : Record) : Prop where
  id : x.id = r.id
  ruleId : x.ruleId = r.ruleId
  engine : x.engine = r.engine
  started : readTime r.started = .ok x.started
  ended : r.ended.mapM readTime = .ok x.ended
  pinged : readTime r.pinged = .ok x.pinged
  running : x.running = r.running
  history : readHistory r.history = .ok x.history

theorem record_eq_ok_iff {r : Row} {x : Record} : r.record = .ok x ↔ r.IsReadAs x := by
  rw [record]
  constructor
  · intro h
    -- one text after the other is read
    cases hstarted : readTime r.started with
    | error f => rw [hstarted] at h; cases h
    | ok started =>
    cases hended : r.ended.mapM readTime with
    | error f => rw [hstarted, hended] at h; cases h
    | ok ended =>
    cases hpinged : readTime r.pinged with
    | error f => rw [hstarted, hended, hpinged] at h; cases h
    | ok pinged =>
    cases hhistory : readHistory r.history with
    | error f => rw [hstarted, hended, hpinged, hhistory] at h; cases h
    | ok history =>
      rw [hstarted, hended, hpinged, hhistory] at h
      cases h
      exact ⟨rfl, rfl, rfl, hstarted, hended, hpinged, rfl, hhistory⟩
  · rintro ⟨hid, hruleId, hengine, hstarted, hended, hpinged, hrunning, hhistory⟩
    rw [hstarted, hended, hpinged, hhistory, ← hid, ← hruleId, ← hengine, ← hrunning]
    rfl

/-- Whether a row belongs to a rule and an engine. -/
def isOf (ruleId engine : String) (r : Row) : Bool := r.ruleId == ruleId && r.engine == engine

/-- The row taken at an instant. -/
def taken (now : Instant) (r : Row) : Row :=
  { r with started := storedText now, pinged := storedText now, running := true }

/-- The row with a sign of life. -/
def alive (now : Instant) (r : Row) : Row := { r with pinged := storedText now }

/-- The row released with a history. -/
def released (now : Instant) (history : String) (r : Row) : Row :=
  { r with running := false, pinged := storedText now, ended := some (storedText now),
           history := history }

end Row

/-- A wish to take the lock of a rule and an engine. -/
structure Wish where
  after : Duration
  ruleId : String
  engine : String
  force : Bool
  deriving DecidableEq, Repr

/-- How long a sign of life protects a row. -/
def Wish.protection (w : Wish) (expire : Duration) (running : Bool) : Duration :=
  if running then max expire w.after else w.after

/-- Whether a row is free for a wish; `pinged` is its last sign of life. -/
def Wish.mayTake (w : Wish) (expire : Duration) (running : Bool) (pinged : Moment) (now : Instant) :
    Except Failure Bool :=
  if w.force then .ok true
  else match (Moment.utc now).shift? (-(w.protection expire running)) with
    | some limit => .ok (pinged.instant < limit.instant)
    | none => .error .dateOutOfRange

/-- When a refused wish may be made again: after the whole interval where the row is running, after
what is left of it otherwise.  The clock is read for this when the wish is already refused; if the
interval is over by then, what is left of it is negative. -/
def Wish.retryAfter (w : Wish) (running : Bool) (pinged : Moment) (later : Instant) :
    Except Failure Duration :=
  if running then .ok w.after
  else
    let d : Duration := w.after - (later - pinged.instant)
    if Duration.inRange d then .ok d
    else .error (.outOfRange ("days=" ++ toString (d / microsPerDay) ++
      "; must have magnitude <= " ++ toString maxDays))

/-- The failure of a wish that is refused. -/
def Wish.refusal (w : Wish) (retryAfter : Duration) : Failure :=
  .fault (.of (.locked w.ruleId w.engine retryAfter))

namespace Table

/-- The row of a rule and an engine. -/
def find? (t : Table) (ruleId engine : String) : Option Row := List.find? (Row.isOf ruleId engine) t

/-- The table with the rows of a rule and an engine changed. -/
def modify (t : Table) (ruleId engine : String) (f : Row → Row) : Table :=
  t.map fun r => if r.isOf ruleId engine then f r else r

/-- Takes a lock; `fresh` is the identifier of a new row, and `later` what the clock shows when it is
read for the hint of a refusal.  The table changes only if the lock is taken. -/
def start (t : Table) (expire : Duration) (w : Wish) (now : Instant) (fresh : String)
    (later : Instant := now) : Except Failure Record × Table :=
  match t.find? w.ruleId w.engine with
  | none =>
    let row := Row.fresh fresh w.ruleId w.engine now
    (row.record, t ++ [row])
  | some row =>
    match (do
      let pinged ← readTime row.pinged
      if ← w.mayTake expire row.running pinged now then .ok ()
      else .error (w.refusal (← w.retryAfter row.running pinged later)) : Except Failure Unit) with
    | .ok () => ((row.taken now).record, t.modify w.ruleId w.engine (Row.taken now))
    | .error f => (.error f, t)

/-- Gives a sign of life for the rows with some identifiers. -/
def ping (t : Table) (ids : List String) (now : Instant) : Table :=
  t.map fun r => if ids.contains r.id then r.alive now else r

/-- A history with one more outcome. -/
def appended (history : String) (o : Outcome) : Except Failure String := do
  let items := (← readItems history) ++ [o.stored]
  .ok (historyText (items.drop (items.length - historyLimit)))

/-- Releases a lock with an outcome.  A lock that never was is left alone. -/
def finish (t : Table) (ruleId engine : String) (o : Outcome) (now : Instant) :
    Except Failure Unit × Table :=
  match t.find? ruleId engine with
  | none => (.ok (), t)
  | some row =>
    match appended row.history o with
    | .ok history => (.ok (), t.modify ruleId engine (Row.released now history))
    | .error f => (.error f, t)

end Table

/-- Which records are wanted: of some rules, of some engines, and at most how many of them; a limit
that is not positive is none. -/
structure Selection where
  ruleIds : Option (List String)
  engines : Option (List String)
  limit : Int
  deriving DecidableEq, Repr

/-- All records. -/
def Selection.all : Selection := ⟨none, none, 0⟩

/-- Whether a name is among the wanted ones. -/
def wanted (names : Option (List String)) (name : String) : Bool :=
  match names with
  | some names => names.contains name
  | none => true

/-- Whether nothing can be wanted, because a list of names is empty. -/
def Selection.isVoid (s : Selection) : Bool := s.ruleIds == some [] || s.engines == some []

/-- Whether a row is wanted. -/
def Selection.admits (s : Selection) (r : Row) : Bool :=
  wanted s.ruleIds r.ruleId && wanted s.engines r.engine

/-- Whether a row stands before another by rule and engine. -/
def Row.belongsBefore (a b : Row) : Bool :=
  a.ruleId < b.ruleId || (a.ruleId == b.ruleId && a.engine ≤ b.engine)

/-- Whether a row is listed before another: it started later, or at the same time with a smaller
rule and engine. -/
def Row.precedes (a b : Row) : Bool :=
  b.started < a.started || (a.started == b.started && a.belongsBefore b)

/-- The last rows to start.  Of those that started together the first in the table stay, or those of
the first rule and engine if only some rules are wanted. -/
def Table.newest (limit : Nat) (s : Selection) (found : List Row) : List Row :=
  let found := if s.ruleIds.isSome then found.mergeSort Row.belongsBefore else found
  (found.mergeSort fun a b => b.started ≤ a.started).take limit

/-- The wanted rows, the last to start first. -/
def Table.rows (t : Table) (s : Selection) : List Row :=
  let found := t.filter s.admits
  (if 0 < s.limit then newest s.limit.toNat s found else found).mergeSort Row.precedes

/-- The wanted records, the last to start first. -/
def Table.select (t : Table) (s : Selection) : Except Failure (List Record) :=
  (t.rows s).mapM Row.record

end AccessRules.Lock
