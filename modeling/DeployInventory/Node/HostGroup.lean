import DeployInventory.EnvironmentQuery
import DeployInventory.Record.Basic
/-!
# Node.HostGroup — sets of hosts
-/
namespace DeployInventory

/-- A host of a host group. -/
structure Host where
  name : String
  hostGroup : String
  address : String
  /-- The environments that the host serves; all of them where there is no query. -/
  environment : Option EnvironmentQuery := none
deriving DecidableEq, Repr

def Host.ofRecord (r : HostRecord) : Host := ⟨r.name, r.hostGroup, r.address, r.environment.map .mk⟩

/-- **Puts a host into a list**: in place of the first one with its name, else at the end. -/
def placeHost (h : Host) : List Host → List Host
  | [] => [h]
  | g :: rest => if g.name = h.name then h :: rest else g :: placeHost h rest

/-- **A set of hosts** that other groups can inherit from. -/
structure HostGroup where
  name : String
  parents : List String := []
  description : Option String := none
  /-- The hosts in the order of their declaration. -/
  hosts : List Host := []
deriving DecidableEq, Repr, Inhabited

namespace HostGroup

/-- Takes over what a record declares; a description stays where the record has none. -/
def declare (n : HostGroup) (r : HostGroupRecord) : HostGroup :=
  { n with name := r.name, parents := r.parents, description := r.description.or n.description }

/-- Declares a host, in place of one with its name. -/
def declareHost (n : HostGroup) (r : HostRecord) : HostGroup :=
  { n with hosts := placeHost (.ofRecord r) n.hosts }

end HostGroup

end DeployInventory
