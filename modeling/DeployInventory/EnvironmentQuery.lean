import DeployInventory.Lineage
/-!
# EnvironmentQuery — an environment together with those that inherit from it
-/
namespace DeployInventory

/-- **A predicate over environments**: the named one and all that inherit from it. -/
structure EnvironmentQuery where
  environment : String
deriving DecidableEq, Repr

namespace EnvironmentQuery

def text (q : EnvironmentQuery) : String := "@" ++ q.environment

/-- **Whether an environment is the queried one or inherits from it.** The hierarchy is not looked at for the queried
environment itself, known or not. -/
def includes (q : EnvironmentQuery) (environments : Hierarchy) (target : String) : Except LineageError Bool :=
  if target = q.environment then .ok true else environments.isAncestor q.environment target

end EnvironmentQuery

end DeployInventory
