import AccessRules.Command.Invocation
import AccessRules.Command.Session
import AccessRules.Engine.Registry
import AccessRules.Pass.Periodic
import AccessRules.Rule.Listing
import AccessRules.Settings.Times
import AccessRules.Storage.Rules

/-!
# Doing tasks

How each task is done under its settings, and what a whole command line comes to.  Every task but
the preparation of a database needs one that was prepared.
-/

namespace AccessRules.Command

open Calendar Storage Session

/-- The version of the program. -/
def version : String := "0.1.0"

/-! ## Settings and databases -/

/-- The settings of an invocation. -/
def settingsOf (folder : Folder) (i : Invocation) : Except Failure Settings := do
  let base ← match i.config with
    | some path => (folder.read path).bind Settings.ofYaml
    | none => .ok .standard
  base.override i.overrides

/-- The settings of an invocation, which say how messages are written from then on. -/
def configure (i : Invocation) : Work Settings := do
  let host ← host?
  let settings ← foreseeing isUnfit "Error loading configuration: " false
    (settingsOf host.folder i)
  modify fun s => { s with logging := s.logging ++ [(settings.logLevel, settings.log.json)] }
  pure settings

/-- What is said of a database without tables. -/
def notPrepared (path : String) : String :=
  "Database " ++ path ++ " is not initialized. Run 'aclapi init-db' first."

/-- Opens the database of settings, which has to be prepared. -/
def openDatabase (s : Settings) : Work Database := do
  let opened ← inFolder (·.connect s.storage.path)
  let d ← foreseeing isFault "Error opening database: " s.debug opened
  if d.version.isNone then refuse [.error (notPrepared s.storage.path)]
  pure d

/-! ## Tasks -/

/-- Makes the tables of a database. -/
def prepare (s : Settings) : Work Unit := do
  let prepared ← inFolder (·.prepare s.storage.path)
  let d ← foreseeing isFault "Error initializing database: " s.debug prepared
  tell (.success ("Database " ++ s.storage.path ++ " ready (schema version " ++
    toString (d.version.getD Database.currentVersion) ++ ")"))

/-- What passes need. -/
structure Equipment where
  engines : List Engine.Stamper
  database : Database
  times : Settings.Times

/-- What passes under settings need. -/
def equip (s : Settings) : Work Equipment := do
  let registry ← foreseeing isFault "" s.debug (Engine.Registry.ofSettings s)
  let d ← openDatabase s
  let times ← certain s.times
  pure ⟨registry.engines, d, times⟩

/-- The site of passes with their equipment. -/
def Equipment.site (e : Equipment) (host : Host) : Pass.Site :=
  Session.site host e.database e.times.lockExpire

/-- A pass over rules. -/
def Equipment.pass (e : Equipment) (s : Settings) (force : Bool) (rules : List Rule)
    (site : Pass.Site) : Pass.Run × Pass.Site :=
  let connection := site.connection s.directory.host s.directory.token
  site.run ⟨e.times.interval, force⟩ (e.engines.map (Engine.Stamper.engine connection)) rules

/-- A pass that did nothing. -/
def noRun : Pass.Run := ⟨⟨0, []⟩, [], [], []⟩

/-- What the periodic loop works with: passes over all active rules at a site.  The loop is asked to
stop as soon as it looks for rules. -/
def oncePassing (e : Equipment) (s : Settings) :
    Pass.Periodic.Loop.Service Rule (Pass.Run × Pass.Site) where
  find l done := (done.2.database.activeRules true, l.requestStop, done)
  pass rules done := (.ok (), e.pass s false rules done.2)

/-- Runs the periodic loop, which is asked to stop during its first pass. -/
def work (s : Settings) : Work Unit := do
  let e ← equip s
  let host ← host?
  tell (.styledLine "dim" ("Worker started, engines: " ++ ", ".intercalate s.engines))
  let loop := Pass.Periodic.Loop.idle s.passes.disabled
  let (_, run, site) := loop.run (oncePassing e s) 1 (noRun, e.site host)
  adopt run site
  tell (.styledLine "dim" "Worker stopped")

/-- The rules of some identifiers or names, or all active ones. -/
def wantedRules (d : Database) (ruleIds : List String) : Except Failure (List Rule) :=
  if ruleIds.isEmpty then d.activeRules true else ruleIds.mapM (d.findRule true)

/-- Runs one pass. -/
def sync (s : Settings) (ruleIds : List String) (force : Bool) : Work Unit := do
  let e ← equip s
  let rules ← foreseeing isFault "" s.debug (wantedRules e.database ruleIds)
  let host ← host?
  let (run, site) := e.pass s force rules (e.site host)
  adopt run site
  tell (.line ("Synced " ++ toString run.result.considered ++ " rules"))

/-- Stores the rules of a file. -/
def addRules (s : Settings) (path : String) (replacing : Bool) : Work Unit := do
  let host ← host?
  let rules ← foreseeing isUnfit "Error loading rules: " s.debug
    ((host.folder.read path).bind (Rule.ofYaml host.now))
  let d ← openDatabase s
  let saved := d.saveValid true host.now host.ids rules replacing
  modify fun session => { session with host := { session.host with ids := saved.ids } }
  let rules ← foreseeing isFault "Error saving rules: " s.debug saved.answer
  keep saved.database
  tell (.success ("Added " ++ toString rules.length ++ " rules"))
  rules.forM fun r => tell (.stored r)

/-- Shows stored rules. -/
def listRules (s : Settings) (removedToo : Bool) (app : Option String) : Work Unit := do
  let d ← openDatabase s
  let all ← foreseeing isFault "" s.debug (match app with
    | some name => d.rulesFromApp true name
    | none => d.allRules true)
  let rules := if removedToo then all else all.filter (!·.removed)
  tell (if rules.isEmpty then .styledLine "dim" "No rules found." else .rules rules)

/-- Marks a rule as removed. -/
def removeRule (s : Settings) (id : String) : Work Unit := do
  let d ← openDatabase s
  let (_, d) ← foreseeing isFault "" s.debug (d.removeRule true id)
  keep d
  tell (.success ("Rule " ++ id ++ " removed"))

/-- Shows locks. -/
def listLocks (s : Settings) (ruleIds : List String) : Work Unit := do
  let d ← openDatabase s
  let records ← foreseeing isFault "" s.debug
    (d.locksOf true (if ruleIds.isEmpty then none else some ruleIds))
  tell (if records.isEmpty then .styledLine "dim" "No syncs found." else .locks records)

/-- Does a task under settings. -/
def Task.perform (s : Settings) : Task → Work Unit
  | .prepare => Command.prepare s
  | .work => Command.work s
  | .sync ruleIds force => Command.sync s ruleIds force
  | .addRules path replacing => Command.addRules s path replacing
  | .listRules removedToo app => Command.listRules s removedToo app
  | .removeRule id => Command.removeRule s id
  | .listLocks ruleIds => Command.listLocks s ruleIds

/-! ## Command lines -/

/-- What a command line came to. -/
structure Report where
  exit : Nat
  shown : List Display
  logging : List (String × Bool)
  requests : List Http.Request
  calls : List Resource.Call
  /-- the failure that was not foreseen -/
  failure : Option Failure

/-- A report of nothing but the code of the exit and what was shown. -/
def Report.brief (exit : Nat) (shown : List Display) : Report := ⟨exit, shown, [], [], [], none⟩

/-- Does what an invocation asks for. -/
def Invocation.perform (i : Invocation) (host : Host) : Report × Host :=
  let (ended, s) := ((do i.task.perform (← configure i)) : Work Unit).run (Session.start host)
  let report (exit : Nat) (failure : Option Failure) : Report :=
    ⟨exit, s.shown, s.logging, s.requests, s.calls, failure⟩
  (match ended with
    | .ok () => report 0 none
    | .error .refused => report 1 none
    | .error (.died f) => report 1 (some f), s.host)

/-- Does what a command line asks for. -/
def run (words : List String) (environment : List (String × String)) (host : Host) :
    Report × Host :=
  match Wish.read host.folder.has environment words with
  | none => (.brief 2 [], host)
  | some .help => (.brief 0 [], host)
  | some .version =>
    (.brief 0 [.line (Text.Markup.styled "bold" "aclapi" ++ " version " ++ version)], host)
  | some (.task i) => i.perform host

end AccessRules.Command
