import AccessRules.Document.Value
import AccessRules.Number.Shortest
import AccessRules.Text.Quoted

/-!
# Documents as messages show them

The notation in which messages and descriptions of errors show a value: texts between quotes, lists
in brackets, maps in braces, dates and durations by their parts.  Unlike JSON it tells every scalar
apart from a text of the same characters.
-/

namespace AccessRules.Shown

open Calendar Text

/-- Arguments after the name of what is built from them. -/
def call (name : String) (args : List String) : String :=
  name ++ "(" ++ ", ".intercalate args ++ ")"

/-- A duration by its days, seconds and microseconds, those that are zero left out. -/
def duration (d : Duration) : String :=
  let days := d / microsPerDay
  let rest := d % microsPerDay
  let part (label : String) (n : Int) : List String :=
    if n = 0 then [] else [label ++ "=" ++ toString n]
  let parts := part "days" days ++ part "seconds" (rest / microsPerSecond) ++
    part "microseconds" (rest % microsPerSecond)
  call "datetime.timedelta" (if parts.isEmpty then ["0"] else parts)

/-- The numbers of a date. -/
def dateParts (d : Date) : List String := [toString d.year, toString d.month, toString d.day]

/-- A moment by its parts; seconds and microseconds are left out when zero. -/
def moment (m : Moment) : String :=
  let seconds := m.timeOfDay / 1000000
  let micros := m.timeOfDay % 1000000
  let s := seconds % 60
  let clock := [toString (seconds / 3600), toString (seconds / 60 % 60)] ++
    (if s = 0 && micros = 0 then [] else [toString s]) ++
    (if micros = 0 then [] else [toString micros])
  let zone := match m.offset with
    | none => []
    | some o => ["tzinfo=" ++ (if o = 0 then "datetime.timezone.utc"
        else call "datetime.timezone" [duration (o * microsPerSecond)])]
  call "datetime.datetime" (dateParts m.date ++ clock ++ zone)

/-- A scalar. -/
def scalar : Scalar → String
  | .null => "None"
  | .bool b => if b then "True" else "False"
  | .int n => toString n
  | .float x => x.text
  | .text s => quoted s
  | .bytes bs => "b" ++ quoted (String.ofList (bs.map fun b => Char.ofNat b.toNat))
  | .date d => call "datetime.date" (dateParts d)
  | .moment m => moment m

mutual

/-- A document. -/
def value : Value → String
  | .scalar s => scalar s
  | .list items => "[" ++ ", ".intercalate (values items) ++ "]"
  | .map entries => "\x7b" ++ ", ".intercalate (members entries) ++ "\x7d"

/-- The items of a list. -/
def values : List Value → List String
  | [] => []
  | v :: rest => value v :: values rest

/-- The entries of a map. -/
def members : List (Scalar × Value) → List String
  | [] => []
  | (k, v) :: rest => (scalar k ++ ": " ++ value v) :: members rest

end

end AccessRules.Shown
