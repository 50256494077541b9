import DeployInventory.Inventory.Basic
/-!
# Inventory.Validation — what is wrong with the hierarchies of an inventory

Every node of every kind has to have a lineage. What several nodes run into is listed once a kind.
-/
namespace DeployInventory

/-- The error of a result, if it is one. -/
def errorOf? {ε α : Type} : Except ε α → Option ε
  | .error e => some e
  | .ok _ => none

namespace Inventory

def addProblem (problems : List LineageError) (e : LineageError) : List LineageError :=
  if e ∈ problems then problems else problems ++ [e]

/-- The problems of one kind, in the order of the nodes that run into them. -/
def problemsOf (inv : Inventory) (kind : NodeKind) : List LineageError :=
  ((inv.names kind).filterMap fun n => errorOf? (inv.lineage kind n)).foldl addProblem []

/-- **The problems of all hierarchies**, kind by kind. -/
def problems (inv : Inventory) : List (NodeKind × LineageError) :=
  NodeKind.all.flatMap fun kind => (inv.problemsOf kind).map (kind, ·)

def isValid (inv : Inventory) : Bool := inv.problems.isEmpty

end Inventory

end DeployInventory
