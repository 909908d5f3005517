import AccessRules.Text.Quoted

/-!
# Identifiers

Rules and lock records get identifiers from a supply of them: the numbers from one on, written with
32 hexadecimal digits.
-/

namespace AccessRules.Storage

/-- The `n`-th identifier. -/
def identifier (n : Nat) : String := String.ofList (Text.fixedHex 32 n)

/-- How many identifiers were handed out. -/
abbrev Supply := Nat

/-- The next identifier of a supply, and the supply without it. -/
def Supply.next (s : Supply) : String × Supply := (identifier (s + 1), s + 1)

end AccessRules.Storage
