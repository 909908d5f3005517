import AccessRules.Document.Shown
import AccessRules.Schema.Scalars

/-!
# Reading lists, maps and records

A record is a map whose keys are the names of its fields.  A field may have a second name; the first
name present in the map is the one that is read, and paths always call the field by its main name.
Keys that no field was read from are strangers: a strict record reports each of them, after the
issues of its fields and in the order of the map; a lax one leaves them alone.
-/

namespace AccessRules.Schema

variable {α : Type}

/-- The entries of a map. -/
abbrev Entries := List (Scalar × Value)

/-- The step of a path that goes through a key. -/
def Step.ofKey : Scalar → Step
  | .text s => .name s
  | .bool b => .index (Scalar.boolInt b)
  | .int n => if -wordLimit ≤ n && n < wordLimit then .index n else .name (Shown.scalar (.int n))
  | k => .name (Shown.scalar k)

/-- The items from index `n` on. -/
def items (read : Reader α) : Nat → List Value → Check (List α)
  | _, [] => .pass []
  | n, v :: rest => List.cons <$> (read v).under (.index n) <*> items read (n + 1) rest

/-- A list, every item of which fits `read`. -/
def list (read : Reader α) : Reader (List α)
  | .list xs => items read 0 xs
  | _ => .issue .notList

/-- A key that has to be a text. -/
def keyText (k : Scalar) : Check String :=
  ((text (.scalar k)).under (.name "[key]")).under (.ofKey k)

/-- The entries of a map from texts to values that fit `read`. -/
def textEntries (read : Reader α) : Entries → Check (List (String × α))
  | [] => .pass []
  | (k, v) :: rest =>
    (fun key a rest => (key, a) :: rest) <$> keyText k <*> (read v).under (.ofKey k) <*>
      textEntries read rest

/-- A map from texts to values that fit `read`. -/
def textMap (read : Reader α) : Reader (List (String × α))
  | .map es => textEntries read es
  | _ => .issue .notMap

/-- Null, or a value that fits `read`. -/
def optional (read : Reader α) : Reader (Option α)
  | .null => .pass none
  | v => (read v).map some

/-- Any document at all. -/
def anything : Reader Value := .pass

/-- The names under which a field may be given; `main` is tried first. -/
structure Name where
  main : String
  other : Option String
  deriving DecidableEq, Repr

/-- A field with one name. -/
instance : Coe String Name := ⟨fun s => ⟨s, none⟩⟩

/-- A field with a second name. -/
def also (main other : String) : Name := ⟨main, some other⟩

/-- The name a field is given under, and its value. -/
def Name.find (n : Name) (es : Entries) : Option (String × Value) :=
  match Value.lookup (.text n.main) es with
  | some v => some (n.main, v)
  | none => n.other.bind fun o => (Value.lookup (.text o) es).map fun v => (o, v)

/-- A field that takes `default` when it is not given. -/
def field (es : Entries) (n : Name) (read : Reader α) (default : α) : Check α :=
  match n.find es with
  | some (_, v) => (read v).under (.name n.main)
  | none => .pass default

/-- A field that has to be given. -/
def required (es : Entries) (n : Name) (read : Reader α) : Check α :=
  match n.find es with
  | some (_, v) => (read v).under (.name n.main)
  | none => (Check.issue .missing).under (.name n.main)

/-- The issue of a key that no field was read from. -/
def stranger (used : List String) : Scalar × Value → Option Issue
  | (.text s, _) => if used.contains s then none else some ⟨.unknownKey, [.name s]⟩
  | (k, _) => some ⟨.keyNotText, [.ofKey k]⟩

/-- The issues of all keys from which none of the fields was read. -/
def strangers (es : Entries) (fields : List Name) : List Issue :=
  es.filterMap (stranger (fields.filterMap fun n => (n.find es).map Prod.fst))

/-- A record that ignores strangers. -/
def laxRecord (read : Entries → Check α) : Reader α
  | .map es => read es
  | _ => .issue .notRecord

/-- A record that reports strangers; `fields` names all its fields. -/
def record (fields : List Name) (read : Entries → Check α) : Reader α
  | .map es => (read es).withIssues (strangers es fields)
  | _ => .issue .notRecord

end AccessRules.Schema
