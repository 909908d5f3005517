import AccessRules.Command.Words
import AccessRules.Schema.Scalars
import AccessRules.Settings.Overrides

/-!
# Invocations

What a command line asks for: the version, help, or one of the tasks with the settings it is to be
done under.  Settings come from a file, and some of them can be overridden by a switch; what is not
given on the command line may be given by a variable of the environment.

A command line that asks for nothing that can be done is a misuse, and so is one that names a file
that is not there.
-/

namespace AccessRules.Command

/-- What the value of a switch has to be. -/
inductive Kind where
  | flag
  | text
  | number
  | integer
  /-- the path of something that is there -/
  | file
  deriving DecidableEq, Repr

/-- A switch of a command. -/
structure Switch where
  name : String
  letter : Option Char
  kind : Kind
  /-- the variable that is looked at when the switch is not given -/
  variableName : Option String
  /-- the path of the setting that is overridden -/
  setting : Option String
  deriving DecidableEq, Repr

namespace Switch

/-- The form of a switch on a command line. -/
def form (s : Switch) : Form := ⟨s.name, s.letter, s.kind ≠ .flag⟩

/-- A word for a truth value, blanks around it left out. -/
def readFlag (word : String) : Option Bool :=
  let word := String.ofList ((Schema.trim word.toList).map Char.toLower)
  if Schema.trueWords.contains word then some true
  else if Schema.falseWords.contains word then some false
  else none

/-- An integer in decimal notation. -/
def readInteger (word : String) : Option Int :=
  let (negative, body) := Decimal.takeSign (Schema.trim word.toList)
  match Decimal.dropUnderscores? body with
  | some digits =>
    if !digits.isEmpty && digits.all Text.isDigit && digits.length ≤ Schema.maxIntText then
      some (Decimal.signed negative digits)
    else none
  | none => none

/-- The value that a word stands for. -/
def readWord (isThere : String → Bool) (kind : Kind) (word : String) : Option Value :=
  match kind with
  | .flag => (readFlag word).map .bool
  | .text => some (.text word)
  | .number => (Decimal.readFloat? (Schema.trim word.toList)).map .float
  | .integer => (readInteger word).map .int
  | .file => if isThere word then some (.text word) else none

/-- The value of a switch: from the command line, or else from its variable unless that is empty;
null if neither gives it.  There is none if what is given is no value of the kind. -/
def value? (isThere : String → Bool) (environment : List (String × String)) (w : Words)
    (s : Switch) : Option Value :=
  match w.last? s.name with
  | some ⟨_, some word⟩ => readWord isThere s.kind word
  | some ⟨_, none⟩ => some (.bool true)
  | none =>
    match (s.variableName.bind fun name => environment.lookup name).filter (!·.isEmpty) with
    | some word => readWord isThere s.kind word
    | none => some .null

/-- The override that a switch makes with a value; a flag that is not set leaves the setting as it
is. -/
def override? (s : Switch) (v : Value) : Option (String × Value) :=
  s.setting.map fun path => (path, match v with
    | .bool false => .null
    | v => v)

end Switch

/-! ## Commands -/

/-- The switch that asks for help. -/
def helpSwitch : Switch := ⟨"help", none, .flag, none, none⟩

/-- The switch that asks for the version. -/
def versionSwitch : Switch := ⟨"version", some 'v', .flag, none, none⟩

/-- The switches of all commands. -/
def commonSwitches : List Switch :=
  [helpSwitch,
    ⟨"config", some 'c', .file, some "ACL_CONFIG", none⟩,
    ⟨"db", none, .text, some "ACL_STORAGE_PATH", some "storage.path"⟩,
    ⟨"debug", none, .flag, some "ACL_DEBUG", some "debug"⟩]

/-- The switches of the command that keeps on running passes. -/
def workSwitches : List Switch :=
  [⟨"interval", none, .number, some "ACL_SYNC_INTERVAL", some "sync.interval"⟩,
    ⟨"sync-disabled", none, .flag, some "ACL_SYNC_DISABLED", some "sync.disabled"⟩,
    ⟨"metrics-port", none, .integer, some "ACL_METRICS_PORT", some "metrics.port"⟩,
    ⟨"tsuru-host", none, .text, some "ACL_TSURU_HOST", some "tsuru.host"⟩,
    ⟨"tsuru-token", none, .text, some "ACL_TSURU_TOKEN", some "tsuru.token"⟩]

/-- The switches of a command. -/
def switchesOf (command : String) : Option (List Switch) :=
  match command with
  | "init-db" | "delete-rule" | "syncs" => some commonSwitches
  | "worker" => some (commonSwitches ++ workSwitches)
  | "sync" => some (⟨"force", some 'f', .flag, none, none⟩ :: commonSwitches)
  | "add-rules" => some (⟨"upsert", none, .flag, none, none⟩ :: commonSwitches)
  | "list-rules" =>
    some (⟨"all", some 'a', .flag, none, none⟩ :: ⟨"app", none, .text, none, none⟩ ::
      commonSwitches)
  | _ => none

/-- What can be done. -/
inductive Task where
  | prepare
  | work
  | sync (ruleIds : List String) (force : Bool)
  | addRules (path : String) (replacing : Bool)
  | listRules (removedToo : Bool) (app : Option String)
  | removeRule (id : String)
  | listLocks (ruleIds : List String)
  deriving DecidableEq, Repr

/-- Values of switches by name. -/
abbrev Values := List (String × Value)

/-- Whether a flag is set. -/
def Values.flag (values : Values) (name : String) : Bool :=
  values.lookup name matches some (.bool true)

/-- The text of a switch. -/
def Values.text? (values : Values) (name : String) : Option String :=
  match values.lookup name with
  | some (.text s) => some s
  | _ => none

/-- The task of a command with its switches and operands. -/
def Task.of? (isThere : String → Bool) (command : String) (values : Values)
    (operands : List String) : Option Task :=
  match command, operands with
  | "init-db", [] => some .prepare
  | "worker", [] => some .work
  | "sync", ids => some (.sync ids (values.flag "force"))
  | "add-rules", [path] =>
    if isThere path then some (.addRules path (values.flag "upsert")) else none
  | "list-rules", [] =>
    some (.listRules (values.flag "all") ((values.text? "app").filter (!·.isEmpty)))
  | "delete-rule", [id] => some (.removeRule id)
  | "syncs", ids => some (.listLocks ids)
  | _, _ => none

/-- A task, the file of settings, and the settings that differ from it. -/
structure Invocation where
  task : Task
  config : Option String
  overrides : Settings.Overrides
  deriving Repr

/-- What a command line asks for. -/
inductive Wish where
  | version
  | help
  | task (i : Invocation)
  deriving Repr

/-- What is asked for by the words after a command. -/
def readCommand (isThere : String → Bool) (environment : List (String × String))
    (command : String) (words : List String) : Option Wish := do
  let switches ← switchesOf command
  let w ← Words.read (switches.map Switch.form) true none words
  if w.has helpSwitch.name then return .help
  let values ← switches.mapM fun s => (s.value? isThere environment w).map fun v => (s, v)
  let named : Values := values.map fun (s, v) => (s.name, v)
  let task ← Task.of? isThere command named w.operands
  some (.task ⟨task, named.text? "config", values.filterMap fun (s, v) => s.override? v⟩)

/-- What is asked for before any command: the first switch of all decides. -/
def readFront (words : List String) : Option (Option Wish × List String) := do
  let w ← Words.read ([helpSwitch, versionSwitch].map Switch.form) false none words
  some (w.switches.head?.map fun s => if s.name = versionSwitch.name then .version else .help,
    w.operands)

/-- What a command line asks for.  A switch where the command should be is still looked at. -/
def Wish.read (isThere : String → Bool) (environment : List (String × String))
    (words : List String) : Option Wish := do
  match ← readFront words with
  | (some wish, _) => some wish
  | (none, []) => none
  | (none, command :: rest) =>
    if (switchesOf command).isSome then readCommand isThere environment command rest
    else (← readFront (command :: rest)).1

end AccessRules.Command
