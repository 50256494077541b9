import DeployInventory.Resolution.Error
/-!
# Resolution.Hosts — the hosts that serve an environment

A host group has the hosts of its ancestors too; of several hosts with one name the most specific group's counts, in
the place of the first. A project deploys to the groups of the nearest project of its chain that lists any.
-/
namespace DeployInventory

def Host.serves (h : Host) (environments : Hierarchy) (environment : String) : Except LineageError Bool :=
  match h.environment with
  | none => .ok true
  | some query => query.includes environments environment

namespace Inventory

/-- Adds the hosts of a list that serve an environment. -/
def addServing (environments : Hierarchy) (environment : String) (found : List Host) :
    List Host → Except LineageError (List Host)
  | [] => .ok found
  | h :: rest => do
    if ← h.serves environments environment then
      addServing environments environment (placeHost h found) rest
    else addServing environments environment found rest

def addChain (inv : Inventory) (environment : String) (found : List Host) :
    List String → Except LineageError (List Host)
  | [] => .ok found
  | n :: rest =>
    match inv.hostGroups.find? n with
    | none => addChain inv environment found rest
    | some g => do
      addChain inv environment (← addServing (inv.hierarchy .environment) environment found g.hosts) rest

/-- **The hosts of a group that serve an environment.** -/
def hosts (inv : Inventory) (hostGroup environment : String) : Resolved (List Host) := do
  inv.require .hostGroup hostGroup
  inv.require .environment environment
  let chain ← ResolveError.ofLineage (inv.lineage .hostGroup hostGroup)
  ResolveError.ofLineage (inv.addChain environment [] chain)

/-- The host groups that a project itself lists, if it lists any. -/
def ownHostGroups (inv : Inventory) (project : String) : Option (List String) :=
  match inv.projects.find? project with
  | none => none
  | some p => if p.hostGroups.isEmpty then none else some p.hostGroups

/-- Adds hosts that are not there yet under their group and name. -/
def addNew (found : List Host) (more : List Host) : List Host :=
  more.foldl (fun l h => if l.any fun g => g.hostGroup == h.hostGroup && g.name == h.name then l else l ++ [h]) found

def addGroups (inv : Inventory) (environment : String) (found : List Host) : List String → Resolved (List Host)
  | [] => .ok found
  | g :: rest => do addGroups inv environment (addNew found (← inv.hosts g environment)) rest

/-- **The hosts that a project deploys to in an environment.** -/
def projectHosts (inv : Inventory) (project environment : String) : Resolved (List Host) := do
  inv.require .project project
  let groups ← ResolveError.ofLineage ((inv.hierarchy .project).nearest inv.ownHostGroups project)
  inv.addGroups environment [] (groups.getD [])

end Inventory

end DeployInventory
