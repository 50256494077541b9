import DeployInventory.CommandLine.Command
import DeployInventory.CommandLine.Usage
import DeployInventory.Loading
import DeployInventory.Location
import DeployInventory.Plan.Order
/-!
# CommandLine.Failure — why a command fails
-/
namespace DeployInventory

/-- **Why a command fails.** -/
inductive CommandFailure where
  /-- No command has the name. -/
  | unknownCommand (name : String)
  /-- The command line of a command has not its form. -/
  | arguments (command : CommandName) (fault : ArgumentFault)
  /-- There is no inventory. -/
  | location (cause : LocationError)
  /-- The inventory cannot be loaded. -/
  | load (path : String) (cause : LoadError)
  /-- Some nodes have no lineage. -/
  | problems (count : Nat)
  /-- A node has no lineage. -/
  | lineage (kind : NodeKind) (name : String) (cause : LineageError)
  /-- No plan has the name. -/
  | unknownPlan (name : String) (known : List String)
  /-- A plan has no order. -/
  | order (plan : String) (cause : ScheduleError)
  /-- A deployment of a plan cannot be resolved. -/
  | deployments (plan : String) (cause : ResolveError)
  /-- A deployment cannot be resolved. -/
  | deployment (project environment : String) (cause : ResolveError)
  /-- A variable cannot be resolved. -/
  | variable (project name : String) (cause : ResolveError)
deriving DecidableEq, Repr

def CommandFailure.message : CommandFailure → String
  | .unknownCommand name =>
    "Unknown command '" ++ name ++ "'. Available: " ++ ", ".intercalate (CommandName.all.map (·.text))
  | .arguments command fault => fault.message command.form
  | .location cause => cause.fullMessage
  | .load path cause => "Failed to load inventory '" ++ path ++ "': " ++ cause.fullMessage
  | .problems count => toString count ++ " hierarchy problems found"
  | .lineage kind name cause => "Could not linearize " ++ kind.name ++ " '" ++ name ++ "': " ++ cause.message
  | .unknownPlan name known =>
    "Unknown plan '" ++ name ++ "'. Known plans: " ++ if known.isEmpty then "(none)" else ", ".intercalate known
  | .order plan cause => "Could not order plan '" ++ plan ++ "': " ++ cause.message
  | .deployments plan cause => "Could not resolve plan '" ++ plan ++ "': " ++ cause.message
  | .deployment project environment cause =>
    "Could not resolve '" ++ project ++ "' for '" ++ environment ++ "': " ++ cause.message
  | .variable project name cause => "Could not resolve '" ++ name ++ "' of '" ++ project ++ "': " ++ cause.message

end DeployInventory
