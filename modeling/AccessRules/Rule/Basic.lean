import AccessRules.Endpoint.Matching
import AccessRules.Endpoint.Validity
import AccessRules.Fault

/-!
# Rules

A rule allows traffic from its source to its destination.  It has an identifier, perhaps a name of
its own, free labels (`metadata`), the moment it was stored and who made it; a rule that has been
deleted stays as a removed one, so that its effects can be taken back.
-/

namespace AccessRules

open Calendar

/-- Free labels, by name. -/
abbrev Labels := List (String × String)

namespace Labels

/-- The label of a name. -/
def get? (labels : Labels) (name : String) : Option String :=
  (labels.find? fun l => l.1 == name).map Prod.snd

/-- Whether all wanted labels are there with the same values. -/
def hold (labels wanted : Labels) : Bool := wanted.all fun w => labels.get? w.1 == some w.2

/-- Labels as a document. -/
def document (labels : Labels) : Value := .record (labels.map fun (k, v) => (k, .text v))

end Labels

/-- An access rule. -/
structure Rule where
  id : String
  name : String
  source : Endpoint
  destination : Endpoint
  removed : Bool
  metadata : Labels
  created : Moment
  creator : String
  deriving DecidableEq, Repr

namespace Rule

open Schema

/-- A rule of a document; one that does not say when it was created is made at `now`. -/
def read (now : Instant) : Reader Rule :=
  record ["rule_id", "rule_name", "source", "destination", "removed", "metadata", "created",
      "creator"] fun es =>
    Rule.mk <$> field es "rule_id" Schema.text "" <*> field es "rule_name" Schema.text "" <*>
      field es "source" Endpoint.read .empty <*> field es "destination" Endpoint.read .empty <*>
      field es "removed" Schema.bool false <*> field es "metadata" (textMap Schema.text) [] <*>
      field es "created" (fun v => (moment v).map Moment.assumeUtc) (.utc now) <*>
      field es "creator" Schema.text ""

/-- A rule as a document. -/
def document (r : Rule) : Value :=
  .record [("rule_id", .text r.id), ("rule_name", .text r.name), ("source", r.source.document),
    ("destination", r.destination.document), ("removed", .bool r.removed),
    ("metadata", r.metadata.document), ("created", .scalar (.moment r.created)),
    ("creator", .text r.creator)]

/-- A rule as one line of text. -/
def text (r : Rule) : String :=
  "[RuleID: " ++ r.id ++ ", Source: " ++ r.source.text ++ ", Destination: " ++
    r.destination.text ++ "]"

/-- What may be wrong with a rule. -/
inductive Flaw where
  | name (flaws : List Name.DomainFlaw)
  | source (flaw : Endpoint.Flaw)
  | destination (flaw : Endpoint.Flaw)
  deriving DecidableEq, Repr

/-- The code of a rule whose name is no domain. -/
def badNameCode : Int := 1002

/-- A flaw as a fault of the service. -/
def Flaw.fault : Flaw → Fault
  | .name flaws =>
    .make (.invalidRule "rule_name" (", ".intercalate (flaws.map Name.DomainFlaw.message))) ""
      badNameCode none []
  | .source flaw => .of (.invalidRule "source" flaw.reason)
  | .destination flaw => .of (.invalidRule "destination" flaw.reason)

/-- What is wrong with the name of a rule; it need not have one. -/
def nameFlaw? (r : Rule) : Option Flaw :=
  let flaws := if r.name.isEmpty then [] else Name.domainFlaws r.name
  if flaws.isEmpty then none else some (.name flaws)

/-- The first flaw of a rule: of its name, its source or its destination. -/
def flaw? (r : Rule) : Option Flaw :=
  r.nameFlaw? <|> r.source.flaw?.map .source <|> r.destination.flaw?.map .destination

/-- Whether a rule may be stored. -/
def isValid (r : Rule) : Bool := r.flaw?.isNone

/-- Whether both ends of a rule match those of a filter. -/
def matchesFilter (r filter : Rule) : Bool :=
  r.source.matchesFilter filter.source && r.destination.matchesFilter filter.destination

/-- The name of the app a rule starts from, if it names one. -/
def sourceApp? (r : Rule) : Option String :=
  (r.source.app.map (·.name)).filter (!·.isEmpty)

/-- The name of the job a rule starts from, if it names one. -/
def sourceJob? (r : Rule) : Option String :=
  (r.source.job.map (·.name)).filter (!·.isEmpty)

end Rule

end AccessRules
