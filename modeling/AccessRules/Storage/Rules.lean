import AccessRules.Storage.Database

/-!
# Rules of the service

What the service offers to those who keep rules in it: rules are stored only if all of them are
valid, can be looked up in several ways, and are removed by identifier or by labels.
-/

namespace AccessRules.Storage

open Calendar

/-- What became of rules that were to be stored: the answer, the rules as they are afterwards, the
database and the supply of identifiers. -/
structure Saved where
  answer : Except Failure (List Rule)
  rules : List Rule
  database : Database
  ids : Supply

namespace Database

/-- Stores rules as they are at an instant, valid or not.  They get their identifiers even if they
cannot be stored. -/
def save (d : Database) (connected : Bool) (now : Instant) (ids : Supply) (rules : List Rule)
    (replacing : Bool) : Saved :=
  let (rules, ids) := Rule.assign now rules ids
  match d.putRules connected rules replacing with
  | .ok d => ⟨.ok rules, rules, d, ids⟩
  | .error f => ⟨.error f, rules, d, ids⟩

/-- The failure of the first rule that is not valid. -/
def firstFlaw? (rules : List Rule) : Option Rule.Flaw := rules.findSome? Rule.flaw?

/-- Stores rules if all of them are valid. -/
def saveValid (d : Database) (connected : Bool) (now : Instant) (ids : Supply) (rules : List Rule)
    (replacing : Bool) : Saved :=
  match firstFlaw? rules with
  | some flaw => ⟨.error (.fault flaw.fault), rules, d, ids⟩
  | none => d.save connected now ids rules replacing

/-- All rules. -/
def allRules (d : Database) (connected : Bool) : Except Failure (List Rule) :=
  d.selectRules connected .all

/-- The rules that were not removed. -/
def activeRules (d : Database) (connected : Bool) : Except Failure (List Rule) :=
  (d.allRules connected).map fun rules => rules.filter (!·.removed)

/-- The rules with some labels. -/
def rulesLabelled (d : Database) (connected : Bool) (metadata : Labels) :
    Except Failure (List Rule) :=
  d.selectRules connected { Rule.Selection.all with metadata := metadata }

/-- The rules that start from an app. -/
def rulesFromApp (d : Database) (connected : Bool) (app : String) : Except Failure (List Rule) :=
  d.selectRules connected { Rule.Selection.all with sourceApp := app }

/-- The rules that start from a job. -/
def rulesFromJob (d : Database) (connected : Bool) (job : String) : Except Failure (List Rule) :=
  d.selectRules connected { Rule.Selection.all with sourceJob := job }

/-- The rules that are like a partial rule: they have its labels and its creator, and both ends match
its ends. -/
def rulesLike (d : Database) (connected : Bool) (filter : Rule) : Except Failure (List Rule) :=
  (d.selectRules connected
      { Rule.Selection.all with metadata := filter.metadata, creator := filter.creator }).map
    fun rules => rules.filter (·.matchesFilter filter)

/-- Removes the rule with an identifier. -/
def removeRule (d : Database) (connected : Bool) (id : String) : Except Failure (Nat × Database) :=
  d.removeRules connected ⟨id, []⟩

/-- Removes the rules with some labels. -/
def removeLabelled (d : Database) (connected : Bool) (metadata : Labels) :
    Except Failure (Nat × Database) :=
  d.removeRules connected ⟨"", metadata⟩

/-- The lock records of some rules, or of all. -/
def locksOf (d : Database) (connected : Bool) (ruleIds : Option (List String)) :
    Except Failure (List Lock.Record) :=
  d.selectLocks connected ⟨ruleIds, none, 0⟩

end Database

end AccessRules.Storage
