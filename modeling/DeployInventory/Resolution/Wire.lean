import DeployInventory.Resolution.Deployment
import DeployInventory.Variable.Wire
/-!
# Resolution.Wire — deployments as JSON

Fields stand in the order in which the structures list them, variables in the order of their names.
-/
namespace DeployInventory

def Host.toJson (h : Host) : Json :=
  .object [("name", .string h.name), ("host_group", .string h.hostGroup), ("address", .string h.address),
    ("environment", .textOrNull (h.environment.map (·.environment)))]

/-- Writes a variable together with the layer that gave it. -/
def ResolvedVariable.toJson (r : ResolvedVariable) : Json :=
  .object [("origin", .string r.origin), ("variable", r.entry.toJson)]

/-- **Writes a deployment.** -/
def Deployment.toJson (d : Deployment) : Json :=
  .object [("project", .string d.project), ("environment", .string d.environment),
    ("job_order", .integer d.jobOrder), ("variables", .object (d.view.map ResolvedVariable.toJson).entries),
    ("hosts", .array (d.hosts.map Host.toJson))]

end DeployInventory
