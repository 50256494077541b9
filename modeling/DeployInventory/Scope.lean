import DeployInventory.EnvironmentQuery
import DeployInventory.Layers
import DeployInventory.VariableList
/-!
# Scope — a node's variables and its overrides for environments

A scope has one unscoped list and, in the order of their first use, one override for each environment assigned to. As
seen from an environment it contributes its own variables and, above them, every override that includes the
environment.
-/
namespace DeployInventory

/-- Variables for the environments that a query includes. -/
structure Override where
  query : EnvironmentQuery
  entries : VariableList := []
deriving Repr

/-- **The variables that a node declares itself**, with its overrides. -/
structure Scope where
  entries : VariableList := []
  overrides : List Override := []
deriving Inhabited, Repr

namespace Scope

/-- Merges an assignment into the override for an environment, which is made on its first use. -/
def assignOverride (environment : String) (a : Assignment) : List Override → List Override
  | [] => [{ query := ⟨environment⟩, entries := VariableList.assign [] a }]
  | o :: rest =>
    if o.query.environment = environment then { o with entries := o.entries.assign a } :: rest
    else o :: assignOverride environment a rest

/-- **Merges an assignment**: into the override for its environment, if it has one. -/
def assign (s : Scope) (a : Assignment) : Scope :=
  match a.environment with
  | none => { s with entries := s.entries.assign a }
  | some environment => { s with overrides := assignOverride environment a s.overrides }

def overrideLayers (environments : Hierarchy) (origin environment : String) :
    List Override → Except LineageError (List Layer)
  | [] => .ok []
  | o :: rest => do
    let included ← o.query.includes environments environment
    let above ← overrideLayers environments origin environment rest
    return if included then ⟨origin ++ o.query.text, o.entries⟩ :: above else above

/-- **The layers of a scope as seen from an environment**: its own variables, then the overrides that include it. -/
def layers (s : Scope) (environments : Hierarchy) (origin environment : String) :
    Except LineageError (List Layer) := do
  return ⟨origin, s.entries⟩ :: (← overrideLayers environments origin environment s.overrides)

end Scope

end DeployInventory
