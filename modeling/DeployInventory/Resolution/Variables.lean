import DeployInventory.Resolution.Error
/-!
# Resolution.Variables — the variables that a node sees

The layers of a node are stacked from the general to the specific: globals, the chain of environments, the chain of
projects, each project's overrides right above its own variables.
-/
namespace DeployInventory

namespace Inventory

def environmentLayers (inv : Inventory) (chain : List String) : LayerStack :=
  chain.filterMap fun n => (inv.environments.find? n).map fun e => ⟨"environment:" ++ n, e.entries⟩

/-- **The globals, then the chain of an environment**, the most general first. -/
def environmentVariables (inv : Inventory) (environment : String) : Resolved LayerStack := do
  inv.require .environment environment
  let chain ← ResolveError.ofLineage (inv.lineage .environment environment)
  return ⟨"global", inv.globals⟩ :: inv.environmentLayers chain

/-- The layers of a chain of projects as seen from an environment. -/
def projectChainLayers (inv : Inventory) (environment : String) : List String → Except LineageError LayerStack
  | [] => .ok []
  | n :: rest =>
    match inv.projects.find? n with
    | none => projectChainLayers inv environment rest
    | some p => do
      let own ← p.scope.layers (inv.hierarchy .environment) ("project:" ++ n) environment
      return own ++ (← projectChainLayers inv environment rest)

/-- The layers of a project and its ancestors as seen from an environment. -/
def projectLayers (inv : Inventory) (project environment : String) : Except LineageError LayerStack := do
  inv.projectChainLayers environment (← inv.lineage .project project)

/-- **The variables of a project as seen from an environment.** -/
def projectVariables (inv : Inventory) (project environment : String) : Resolved LayerStack := do
  inv.require .project project
  inv.require .environment environment
  ResolveError.ofLineage (inv.projectLayers project environment)

/-- **All that a deployment of a project to an environment sees**: globals, environments, then projects. -/
def deployVariables (inv : Inventory) (project environment : String) : Resolved LayerStack := do
  inv.requireDeployable .project project
  inv.requireDeployable .environment environment
  let below ← inv.environmentVariables environment
  return below ++ (← ResolveError.ofLineage (inv.projectLayers project environment))

/-- **The value of one variable in a deployment**, references followed; nothing where no layer defines it. -/
def variableIn? (inv : Inventory) (project environment name : String) : Resolved (Option Variable) := do
  let stack ← inv.deployVariables project environment
  ResolveError.ofReference (stack.dereference name)

end Inventory

end DeployInventory
