import DeployInventory.Node.Environment
import DeployInventory.Node.HostGroup
import DeployInventory.Node.Playbook
import DeployInventory.Node.Project
import DeployInventory.NodeKind
/-!
# Inventory — every node, as a stream of records makes it

Records are applied one after the other, in any order: an assignment, a host or a play for an owner that is not
declared yet makes a placeholder without parents, which the declaration fills in later.
-/
namespace DeployInventory

/-- **A snapshot of all nodes**, each under its name, and of the global variables. -/
structure Inventory where
  environments : NameMap Environment := .empty
  projects : NameMap Project := .empty
  playbooks : NameMap Playbook := .empty
  hostGroups : NameMap HostGroup := .empty
  globals : VariableList := []
deriving Inhabited

namespace Inventory

def empty : Inventory := {}

/-- Hands an assignment to its owner: a project, else a playbook, else an environment, else the globals. -/
def assign (inv : Inventory) (a : Assignment) : Inventory :=
  match a.project, a.playbook, a.environment with
  | some project, _, _ => { inv with projects := inv.projects.update project { name := project } (·.assign a) }
  | none, some playbook, _ =>
    { inv with playbooks := inv.playbooks.update playbook { name := playbook } (·.assign a) }
  | none, none, some environment =>
    { inv with environments := inv.environments.update environment { name := environment } (·.assign a) }
  | none, none, none => { inv with globals := inv.globals.assign a }

/-- **Applies a record.** -/
def apply (inv : Inventory) : Record → Inventory
  | .environment r =>
    { inv with environments := inv.environments.update r.name { name := r.name } (·.declare r) }
  | .project r => { inv with projects := inv.projects.update r.name { name := r.name } (·.declare r) }
  | .hostGroup r => { inv with hostGroups := inv.hostGroups.update r.name { name := r.name } (·.declare r) }
  | .host r =>
    { inv with hostGroups := inv.hostGroups.update r.hostGroup { name := r.hostGroup } (·.declareHost r) }
  | .playbook r => { inv with playbooks := inv.playbooks.update r.name { name := r.name } (·.declare r) }
  | .play r =>
    { inv with playbooks := inv.playbooks.update r.playbook { name := r.playbook } (·.declarePlay r) }
  | .assignment a => inv.assign a

def applyAll (inv : Inventory) (records : List Record) : Inventory := records.foldl apply inv

/-- **The inventory that a stream of records makes.** -/
def ofRecords (records : List Record) : Inventory := empty.applyAll records

def hierarchy (inv : Inventory) : NodeKind → Hierarchy
  | .environment => inv.environments.map (·.parents)
  | .project => inv.projects.map (·.parents)
  | .playbook => inv.playbooks.map (·.parents)
  | .hostGroup => inv.hostGroups.map (·.parents)

/-- The names of the nodes of a kind, ascending. -/
def names (inv : Inventory) (kind : NodeKind) : List String := (inv.hierarchy kind).names

/-- A node and its ancestors, the most general first. -/
def lineage (inv : Inventory) (kind : NodeKind) (name : String) : Except LineageError (List String) :=
  (inv.hierarchy kind).descending name

end Inventory

end DeployInventory
