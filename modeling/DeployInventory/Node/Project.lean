import DeployInventory.Scope
/-!
# Node.Project — units of configuration to deploy
-/
namespace DeployInventory

/-- **A unit of configuration to deploy.** -/
structure Project where
  name : String
  parents : List String := []
  isAbstract : Bool := false
  description : Option String := none
  /-- The project's own priority; inherited where there is none. -/
  jobOrder : Option Int := none
  hostGroups : List String := []
  scope : Scope := {}
deriving Inhabited, Repr

namespace Project

/-- Takes over what a record declares; a description stays where the record has none. -/
def declare (n : Project) (r : ProjectRecord) : Project :=
  { n with
    name := r.name, parents := r.parents, isAbstract := r.isAbstract,
    description := r.description.or n.description, jobOrder := r.jobOrder, hostGroups := r.hostGroups }

/-- Merges an assignment; one for an environment goes to an override. -/
def assign (n : Project) (a : Assignment) : Project := { n with scope := n.scope.assign a }

end Project

end DeployInventory
