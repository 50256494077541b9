import DeployInventory.Variable.Basic
/-!
# Record — the edits of an inventory

An inventory is what a stream of records makes of the empty one. A record declares a node, a host of a host group or
a play of a playbook, or it assigns a variable.
-/
namespace DeployInventory

/-- Declares an environment or updates it. -/
structure EnvironmentRecord where
  name : String
  parents : List String := []
  isAbstract : Bool := false
  description : Option String := none
deriving DecidableEq, Repr

/-- Declares a project or updates it. -/
structure ProjectRecord where
  name : String
  parents : List String := []
  isAbstract : Bool := false
  description : Option String := none
  /-- The priority in a plan; inherited where there is none. -/
  jobOrder : Option Int := none
  /-- The host groups the project deploys to; inherited where there are none. -/
  hostGroups : List String := []
deriving DecidableEq, Repr

/-- Declares a host group or updates it. -/
structure HostGroupRecord where
  name : String
  parents : List String := []
  description : Option String := none
deriving DecidableEq, Repr

/-- Declares a host of a host group or replaces it. -/
structure HostRecord where
  name : String
  hostGroup : String
  address : String
  /-- The host serves this environment and those that inherit from it; all where there is none. -/
  environment : Option String := none
deriving DecidableEq, Repr

/-- Declares a playbook or updates it. -/
structure PlaybookRecord where
  name : String
  parents : List String := []
  isAbstract : Bool := false
  description : Option String := none
deriving DecidableEq, Repr

/-- Declares a play of a playbook or updates it. -/
structure PlayRecord where
  playbook : String
  name : String
  description : Option String := none
  tags : List String := []
  hostGroups : List String := []
deriving DecidableEq, Repr

/-- **An edit of one variable.** A project, a playbook with or without a play, or an environment owns it; without any
of them it is global. Where a project or a playbook is the owner, an environment makes it an override. -/
structure Assignment where
  id : AssignmentId
  entry : VariableEntry
  /-- A disabled assignment erases the entry with its id. -/
  disabled : Bool := false
  environment : Option String := none
  project : Option String := none
  playbook : Option String := none
  play : Option String := none
deriving Repr

/-- **An edit of an inventory.** -/
inductive Record where
  | environment (r : EnvironmentRecord)
  | project (r : ProjectRecord)
  | hostGroup (r : HostGroupRecord)
  | host (r : HostRecord)
  | playbook (r : PlaybookRecord)
  | play (r : PlayRecord)
  | assignment (a : Assignment)
deriving Repr

def Record.describe : Record → String
  | .environment r => "environment '" ++ r.name ++ "'"
  | .project r => "project '" ++ r.name ++ "'"
  | .hostGroup r => "host group '" ++ r.name ++ "'"
  | .host r => "host '" ++ r.hostGroup ++ "/" ++ r.name ++ "'"
  | .playbook r => "playbook '" ++ r.name ++ "'"
  | .play r => "play '" ++ r.playbook ++ "/" ++ r.name ++ "'"
  | .assignment a => "assignment '" ++ a.id.text ++ "' (" ++ a.entry.name ++ ")"

end DeployInventory
