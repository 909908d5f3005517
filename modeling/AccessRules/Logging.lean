import AccessRules.Fault

/-!
# Log levels

Log messages are let through from a least level on.  Levels are named in any letter case, and a name
that is not known means the level of general information.
-/

namespace AccessRules.Logging

/-- The names of levels, in upper case, and the levels. -/
def levels : List (String × Nat) :=
  [("CRITICAL", 50), ("FATAL", 50), ("ERROR", 40), ("WARNING", 30), ("WARN", 30), ("INFO", 20),
    ("DEBUG", 10), ("NOTSET", 0)]

/-- The level of general information. -/
def standard : Nat := 20

/-- The upper case of the letters that stand in names of levels, two letters beyond ASCII having one
of them as their upper case. -/
def upper (c : Char) : Char :=
  if c = '\u0131' then 'I' else if c = '\u017f' then 'S' else c.toUpper

/-- A name that stands for the way messages are laid out and is no level. -/
def layoutName : String := "BASIC_FORMAT"

/-- The layout of messages. -/
def layout : String := "%(levelname)s:%(name)s:%(message)s"

/-- The level a name stands for. -/
def level (name : String) : Except Failure Nat :=
  let name := String.ofList (name.toList.map upper)
  if name = layoutName then .error (.badValue ("Unknown level: " ++ Text.quoted layout))
  else .ok ((levels.lookup name).getD standard)

end AccessRules.Logging
