import DeployInventory.VariableList
/-!
# Node.Environment — targets of deployments
-/
namespace DeployInventory

/-- **A target of deployments.** An abstract one is only inherited from. -/
structure Environment where
  name : String
  parents : List String := []
  isAbstract : Bool := false
  description : Option String := none
  entries : VariableList := []
deriving Inhabited, Repr

namespace Environment

/-- Takes over what a record declares; a description stays where the record has none. -/
def declare (n : Environment) (r : EnvironmentRecord) : Environment :=
  { n with
    name := r.name, parents := r.parents, isAbstract := r.isAbstract,
    description := r.description.or n.description }

def assign (n : Environment) (a : Assignment) : Environment := { n with entries := n.entries.assign a }

end Environment

end DeployInventory
