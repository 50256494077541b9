import DeployInventory.Resolution.Hosts
import DeployInventory.Resolution.Variables
/-!
# Resolution.Deployment — one project deployed to one environment
-/
namespace DeployInventory

/-- **The resolved configuration of a project in an environment.** -/
structure Deployment where
  project : String
  environment : String
  jobOrder : Int
  /-- Every visible variable with the layer that gave it. -/
  view : NameMap ResolvedVariable
  hosts : List Host

namespace Inventory

/-- The job order of projects that have none in their whole lineage. -/
def defaultJobOrder : Int := 0

/-- **The job order of a project**: its own or that of the nearest ancestor with one. -/
def jobOrder (inv : Inventory) (project : String) : Resolved Int := do
  inv.require .project project
  let own (name : String) : Option Int := (inv.projects.find? name).bind (·.jobOrder)
  let found ← ResolveError.ofLineage ((inv.hierarchy .project).nearest own project)
  return found.getD defaultJobOrder

/-- **Resolves a deployment**: its variables, its job order, then its hosts. -/
def deployment (inv : Inventory) (project environment : String) : Resolved Deployment := do
  let stack ← inv.deployVariables project environment
  let jobOrder ← inv.jobOrder project
  let hosts ← inv.projectHosts project environment
  return { project, environment, jobOrder, view := stack.materialize, hosts }

end Inventory

end DeployInventory
