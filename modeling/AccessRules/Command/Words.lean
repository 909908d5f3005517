/-!
# The words of a command line

A command line is a list of words.  Words that start with a hyphen are switches: a long one has two
hyphens and a name, short ones have one hyphen and a letter each, so that several may share a word.
A switch is a flag, or takes a value: the rest of its word, after an equals sign if it is long, or
else the whole next word, whatever that is.

All other words, and all words after a lone `--`, are operands.  Switches may stand between operands
unless the first operand says how the rest is to be read.
-/

namespace AccessRules.Command

/-- The form of a switch: its name, its letter if it has one, and whether it takes a value. -/
structure Form where
  name : String
  letter : Option Char
  takesValue : Bool
  deriving DecidableEq, Repr

/-- A switch that was given, with its value. -/
structure Given where
  name : String
  value : Option String
  deriving DecidableEq, Repr

/-- A command line taken apart. -/
structure Words where
  switches : List Given
  operands : List String
  deriving DecidableEq, Repr

namespace Words

/-- What a word of switches gives: switches, and the name of the one that waits for its value. -/
abbrev Reading := List Given × Option String

/-- Reads the letters of short switches. -/
def readLetters (forms : List Form) : List Char → Option Reading
  | [] => some ([], none)
  | c :: cs => do
    let form ← forms.find? (·.letter == some c)
    if !form.takesValue then
      let (more, waiting) ← readLetters forms cs
      some (⟨form.name, none⟩ :: more, waiting)
    else if cs.isEmpty then some ([], some form.name)
    else some ([⟨form.name, some (String.ofList cs)⟩], none)

/-- Reads the name of a long switch, perhaps with its value. -/
def readName (forms : List Form) (cs : List Char) : Option Reading := do
  let form ← forms.find? (·.name == String.ofList (cs.takeWhile (· != '=')))
  match form.takesValue, cs.dropWhile (· != '=') with
  | true, [] => some ([], some form.name)
  | true, _ :: value => some ([⟨form.name, some (String.ofList value)⟩], none)
  | false, [] => some ([⟨form.name, none⟩], none)
  | false, _ :: _ => none

/-- Reads words, the first of which may be the value of a switch that waits for it.  If switches and
operands are not `mixed`, the first operand ends the switches. -/
def read (forms : List Form) (mixed : Bool) : Option String → List String → Option Words
  | none, [] => some ⟨[], []⟩
  | some _, [] => none
  | some name, value :: rest => do
    let words ← read forms mixed none rest
    some { words with switches := ⟨name, some value⟩ :: words.switches }
  | none, word :: rest =>
    match word.toList with
    | ['-', '-'] => some ⟨[], rest⟩
    | '-' :: c :: cs => do
      let (given, waiting) ← if c = '-' then readName forms cs else readLetters forms (c :: cs)
      let words ← read forms mixed waiting rest
      some { words with switches := given ++ words.switches }
    | _ =>
      if mixed then do
        let words ← read forms mixed none rest
        some { words with operands := word :: words.operands }
      else some ⟨[], word :: rest⟩

/-- Whether a switch was given. -/
def has (w : Words) (name : String) : Bool := w.switches.any (·.name == name)

/-- A switch as it was given last. -/
def last? (w : Words) (name : String) : Option Given :=
  w.switches.reverse.find? (·.name == name)

end Words

end AccessRules.Command
