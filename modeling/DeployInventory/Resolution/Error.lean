import DeployInventory.Inventory.Basic
/-!
# Resolution.Error — why a node cannot be resolved
-/
namespace DeployInventory

/-- **Why a node cannot be resolved.** -/
inductive ResolveError where
  /-- The node does not exist. -/
  | unknownNode (kind : NodeKind) (name : String)
  /-- Only descendants of the node can be deployed. -/
  | abstractNode (kind : NodeKind) (name : String)
  /-- Neither the playbook nor one of its ancestors defines the play. -/
  | missingPlay (playbook play : String)
  /-- Several ancestors define the play, and none of them inherits from another. -/
  | ambiguousSuperPlay (playbook play : String) (candidates : List String)
  /-- A hierarchy has no order. -/
  | lineage (cause : LineageError)
  /-- A reference leads nowhere. -/
  | reference (cause : ReferenceError)
deriving DecidableEq, Repr

namespace ResolveError

def message : ResolveError → String
  | .unknownNode kind name => "Unknown " ++ kind.name ++ " '" ++ name ++ "'."
  | .abstractNode kind name => "The " ++ kind.name ++ " '" ++ name ++ "' is abstract and cannot be deployed."
  | .missingPlay playbook play =>
    "Play '" ++ play ++ "' is not defined by playbook '" ++ playbook ++ "' or any of its ancestors."
  | .ambiguousSuperPlay playbook play candidates =>
    "Play '" ++ play ++ "' of playbook '" ++ playbook ++ "' is inherited from several playbooks: " ++
      ", ".intercalate candidates ++ "."
  | .lineage cause => cause.message
  | .reference cause => cause.message

/-- A result about a hierarchy, its error among those of resolution. -/
def ofLineage {α : Type} : Except LineageError α → Except ResolveError α
  | .ok a => .ok a
  | .error cause => .error (.lineage cause)

/-- A result about references, its error among those of resolution. -/
def ofReference {α : Type} : Except ReferenceError α → Except ResolveError α
  | .ok a => .ok a
  | .error cause => .error (.reference cause)

end ResolveError

/-- What resolution gives: a value or the first error. -/
abbrev Resolved (α : Type) := Except ResolveError α

namespace Inventory

/-- Whether a node exists, and then whether it is abstract; host groups never are. -/
def abstract? (inv : Inventory) (kind : NodeKind) (name : String) : Option Bool :=
  match kind with
  | .environment => (inv.environments.find? name).map (·.isAbstract)
  | .project => (inv.projects.find? name).map (·.isAbstract)
  | .playbook => (inv.playbooks.find? name).map (·.isAbstract)
  | .hostGroup => (inv.hostGroups.find? name).map fun _ => false

def require (inv : Inventory) (kind : NodeKind) (name : String) : Resolved Unit :=
  match inv.abstract? kind name with
  | some _ => .ok ()
  | none => .error (.unknownNode kind name)

def requireDeployable (inv : Inventory) (kind : NodeKind) (name : String) : Resolved Unit :=
  match inv.abstract? kind name with
  | some false => .ok ()
  | some true => .error (.abstractNode kind name)
  | none => .error (.unknownNode kind name)

end Inventory

end DeployInventory
