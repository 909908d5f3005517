import AccessRules.Fault
import AccessRules.Lock.Record
import AccessRules.Rule.Basic
import AccessRules.Text.Markup

/-!
# What is shown

Commands show lines of marked-up text and tables.  Times are shown to the second, in the offset they
have; long details are cut.
-/

namespace AccessRules.Command

open Text.Markup Calendar

/-- Something that is shown. -/
inductive Display where
  | line (text : String)
  | table (columns : List String) (rows : List (List String))
  deriving DecidableEq, Repr

namespace Display

/-- A line in a style. -/
def styledLine (style text : String) : Display := .line (styled style text)

/-- A mark that something went well, and what. -/
def success (text : String) : Display := .line (styled "green" "✓" ++ " " ++ text)

/-- An error; what it quotes is shown as it is. -/
def error (text : String) : Display := styledLine "red" (escape text)

/-- A failure after some words.  Of a report of mismatches there is only the first line, which does
not end the style. -/
def failure (words : String) : Failure → Display
  | .mismatch report => .line ("[red]" ++ escape (words ++ report.headline))
  | f => error (words ++ f.text)

/-- A failure with all its data. -/
def details : Failure → Display
  | .fault f => styledLine "dim" (escape f.description)
  | f => styledLine "dim" (escape f.text)

/-- How many characters a time has down to the second. -/
def secondsLength : Nat := 19

/-- A time to the second. -/
def time (m : Moment) : String := String.ofList (m.iso.toList.take secondsLength)

/-- A mark for what is the case. -/
def mark (b : Bool) : String := if b then styled "yellow" "yes" else ""

/-! ## Rules -/

/-- A rule as it was just stored. -/
def stored (r : Rule) : Display :=
  .line ("  " ++ styled "cyan" r.id ++ " " ++ r.source.text ++ " -> " ++ r.destination.text)

/-- The row of a rule. -/
def ruleRow (r : Rule) : List String :=
  [r.id, r.name, r.source.text, r.destination.text, r.creator, time r.created, mark r.removed]

/-- A table of rules. -/
def rules (rs : List Rule) : Display :=
  .table ["Rule ID", "Name", "Source", "Destination", "Creator", "Created", "Removed"]
    (rs.map ruleRow)

/-! ## Locks -/

/-- The longest details that are shown in full. -/
def detailsLimit : Nat := 60

/-- Details, cut if they are long. -/
def cut (s : String) : String :=
  if detailsLimit < s.length then String.ofList (s.toList.take (detailsLimit - 3)) ++ "..." else s

/-- How the last application of a rule ended, and details about it. -/
def latest : Option Lock.Outcome → String × String
  | none => (styled "dim" "-", "")
  | some o =>
    if o.successful then (styled "green" "ok", o.result) else (styled "red" "failed", o.error)

/-- The row of a lock. -/
def lockRow (r : Lock.Record) : List String :=
  let (ending, text) := latest r.latest?
  [r.ruleId, r.engine, mark r.running, time r.started, time r.pinged, ending, cut text]

/-- Whether a lock comes before another: it started in a later second, or in the same second and its
rule and engine come first. -/
def lockBefore (a b : Lock.Record) : Bool :=
  let s := time a.started
  let t := time b.started
  t < s || (s == t && (a.ruleId < b.ruleId || (a.ruleId == b.ruleId && a.engine ≤ b.engine)))

/-- A table of locks. -/
def locks (rs : List Lock.Record) : Display :=
  .table ["Rule ID", "Engine", "Running", "Started", "Last ping", "Latest", "Details"]
    ((rs.mergeSort lockBefore).map lockRow)

/-! ## Plain text -/

/-- The lines of what is shown, without styles; the cells of a row are set apart by tabs. -/
def plainLines : Display → List String
  | .line text => [plain text]
  | .table columns rows => (columns :: rows).map fun cells => "\t".intercalate (cells.map plain)

end Display

end AccessRules.Command
