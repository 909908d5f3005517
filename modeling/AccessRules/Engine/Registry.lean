import AccessRules.Engine.Stamper
import AccessRules.Settings.Basic

/-!
# Enabled engines

The engines of a pass, in the order in which they were enabled; one may be enabled more than once.
Settings name the engines to enable, and only the two stamping engines can be named.
-/

namespace AccessRules.Engine

/-- The enabled engines, in order. -/
structure Registry (ε : Type) where
  engines : List ε
  deriving Repr

namespace Registry

variable {ε : Type}

/-- No engine is enabled. -/
def empty : Registry ε := ⟨[]⟩

/-- How many engines are enabled. -/
def size (r : Registry ε) : Nat := r.engines.length

/-- Enables one more engine; nothing cannot be enabled. -/
def enable (engine : Option ε) (r : Registry ε) : Except Failure (Registry ε) :=
  match engine with
  | some e => .ok ⟨r.engines ++ [e]⟩
  | none => .error (.badValue "Strategy factory must be callable")

/-- The names of the enabled engines. -/
def names (name : ε → String) (r : Registry ε) : List String := r.engines.map name

/-- A registry in a word. -/
def description (name : ε → String) (r : Registry ε) : String :=
  "<StrategyRegistry: [" ++ ", ".intercalate (r.names name) ++ "]>"

end Registry

/-- The engines that can be enabled, below a space. -/
def available (space : String) : List Stamper :=
  [⟨.app, space, .standard⟩, ⟨.cronJob, space, .standard⟩]

/-- The names of the engines that can be enabled, in order. -/
def availableNames : List String := ((available "").map Stamper.name).mergeSort

/-- The engine of a name. -/
def named (space name : String) : Except Failure Stamper :=
  match (available space).find? (·.name == name) with
  | some s => .ok s
  | none => .error (.fault (.of (.unknownStrategy name availableNames)))

/-- The engines that settings enable. -/
def Registry.ofSettings (s : Settings) : Except Failure (Registry Stamper) :=
  (s.engines.mapM (named s.kubernetes.space)).map Registry.mk

end AccessRules.Engine
