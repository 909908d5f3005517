import AccessRules.Lock.Table
import AccessRules.Rule.Table

/-!
# The database

Rules and locks are kept in one database.  Its tables have to be made once before anything can be
kept, and it can only be used over a connection that is open.
-/

namespace AccessRules.Storage

open Calendar

/-- The tables of rules and of locks; there is no version before the tables are made. -/
structure Database where
  path : String
  version : Option Int
  rules : Rule.Table
  locks : Lock.Table
  deriving DecidableEq, Repr

namespace Database

/-- A database without tables. -/
def blank (path : String) : Database := ⟨path, none, [], []⟩

/-- The version of the tables that are made. -/
def currentVersion : Int := 1

/-- The failure to use a database over a closed connection. -/
def closed (d : Database) : Failure :=
  .fault (.saying (.storageConnection "connect" d.path) "Database is closed")

/-- What is said of a table that was not made. -/
def noTable (table : String) : String := "no such table: " ++ table

/-- Whether a table can be read. -/
def canRead (d : Database) (connected : Bool) (operation table : String) : Except Failure Unit :=
  if !connected then .error d.closed
  else if d.version.isNone then .error (.fault (.of (.storageRead operation (noTable table))))
  else .ok ()

/-- Whether a table can be written.  A database in trouble cannot, such as one that someone else
writes at the moment. -/
def canWrite (d : Database) (connected : Bool) (operation table : String)
    (trouble : Option String := none) : Except Failure Unit :=
  if !connected then .error d.closed
  else match trouble with
    | some text => .error (.fault (.of (.storageWrite operation text)))
    | none =>
      if d.version.isNone then .error (.fault (.of (.storageWrite operation (noTable table))))
      else .ok ()

/-- A table that is made can be written over an open connection and out of trouble, and only then. -/
theorem canWrite_eq_ok_iff {d : Database} {connected : Bool} {operation table : String}
    {trouble : Option String} : d.canWrite connected operation table trouble = .ok () ↔
      connected = true ∧ trouble = none ∧ d.version.isSome = true := by
  unfold canWrite
  cases connected <;> cases trouble <;> cases d.version <;> simp

/-- The name of the table of rules. -/
def rulesTable : String := "rules"

/-- The name of the table of locks. -/
def locksTable : String := "rule_syncs"

/-! ## Tables -/

/-- Makes the tables, unless they are there. -/
def makeTables (d : Database) (connected : Bool) : Except Failure Database :=
  if connected then .ok { d with version := some (d.version.getD currentVersion) }
  else .error d.closed

/-- The version of the tables, if they are made. -/
def version? (d : Database) (connected : Bool) : Except Failure (Option Int) :=
  if connected then .ok d.version else .error d.closed

/-! ## Rules -/

/-- The rule with an identifier or, if there is none, with a name. -/
def findRule (d : Database) (connected : Bool) (idOrName : String) : Except Failure Rule := do
  d.canRead connected "find_rule" rulesTable
  match d.rules.find? idOrName with
  | some row => row.rule
  | none => .error (.fault (.of (.ruleNotFound "find_rule" idOrName)))

/-- The wanted rules, in the order of their identifiers. -/
def selectRules (d : Database) (connected : Bool) (s : Rule.Selection) :
    Except Failure (List Rule) := do
  d.canRead connected "find_rules" rulesTable
  d.rules.select s

/-- Stores rules that have their identifiers.  No table is needed to store none. -/
def putRules (d : Database) (connected : Bool) (rules : List Rule) (replacing : Bool) :
    Except Failure Database := do
  if connected && rules.isEmpty then return d
  d.canWrite connected "save_rules" rulesTable
  match d.rules.insertAll replacing (rules.map Rule.Row.ofRule) with
  | .ok table => .ok { d with rules := table }
  | .error conflict => .error conflict.failure

/-- Marks rules as removed, and says how many. -/
def removeRules (d : Database) (connected : Bool) (r : Rule.Removal) :
    Except Failure (Nat × Database) := do
  d.canWrite connected "delete_rules" rulesTable
  let (count, table) ← d.rules.remove r
  if count = 0 then .error (.fault (.of (.ruleNotFound "delete_rules" r.id)))
  else .ok (count, { d with rules := table })

/-! ## Locks -/

/-- Takes a lock.  A row that was not there gets the next identifier. -/
def startLock (d : Database) (connected : Bool) (expire : Duration) (w : Lock.Wish) (now : Instant)
    (ids : Supply) (trouble : Option String := none) (later : Instant := now) :
    Except Failure Lock.Record × Database × Supply :=
  match d.canWrite connected "start_sync" locksTable trouble with
  | .error f => (.error f, d, ids)
  | .ok () =>
    let (fresh, rest) := ids.next
    let ids := if (d.locks.find? w.ruleId w.engine).isSome then ids else rest
    let (record, table) := d.locks.start expire w now fresh later
    (record, { d with locks := table }, ids)

/-- Gives a sign of life for some locks. -/
def pingLocks (d : Database) (connected : Bool) (ids : List String) (now : Instant) :
    Except Failure Database :=
  if ids.isEmpty then .ok d
  else do
    d.canWrite connected "ping_syncs" locksTable
    .ok { d with locks := d.locks.ping ids now }

/-- Releases a lock with an outcome. -/
def finishLock (d : Database) (connected : Bool) (ruleId engine : String) (o : Lock.Outcome)
    (now : Instant) (trouble : Option String := none) : Except Failure Unit × Database :=
  match d.canWrite connected "end_sync" locksTable trouble with
  | .error f => (.error f, d)
  | .ok () =>
    let (done, table) := d.locks.finish ruleId engine o now
    (done, { d with locks := table })

/-- The wanted lock records, the last to start first. -/
def selectLocks (d : Database) (connected : Bool) (s : Lock.Selection) :
    Except Failure (List Lock.Record) :=
  if s.isVoid then .ok []
  else do
    d.canRead connected "find_syncs" locksTable
    d.locks.select s

end Database

end AccessRules.Storage
