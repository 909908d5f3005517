import AccessRules.Resolution.Question

/-!
# Resolutions of one pass

Many rules of a pass have the same source, so what an endpoint resolved to is remembered under its
canonical form, and so is that it resolved to nothing.  A failure is not remembered.
-/

namespace AccessRules.Resolution

open Directory

/-- What was resolved in a pass, and what is known about the directory. -/
structure Cache where
  memo : List (String × Option Target)
  memory : Memory
  deriving Repr

namespace Cache

/-- Nothing is resolved yet. -/
def empty : Cache := ⟨[], .empty⟩

/-- How many endpoints are resolved. -/
def size (c : Cache) : Nat := c.memo.length

/-- What an endpoint resolves to, asked only if it is not yet known. -/
def resolve (connection : Connection) (e : Endpoint) (c : Cache) :
    Except Failure (Option Target) × Cache :=
  match c.memo.lookup e.canonical with
  | some target => (.ok target, c)
  | none =>
    match Resolution.resolve connection c.memory e with
    | (.ok target, memory) => (.ok target, ⟨(e.canonical, target) :: c.memo, memory⟩)
    | (.error f, memory) => (.error f, { c with memory := memory })

end Cache

/-- Resolving needs a directory. -/
def directoryOf : Option Connection → Except Failure Connection
  | some c => .ok c
  | none => .error (.badValue "LogicCache needs a directory or a logic_factory")

end AccessRules.Resolution
