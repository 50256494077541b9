/-!
# NodeKind — the kinds of nodes that inherit
-/
namespace DeployInventory

/-- **The kinds of nodes with an inheritance hierarchy.** -/
inductive NodeKind where
  | environment
  | project
  | playbook
  | hostGroup
deriving DecidableEq, Repr, Inhabited

namespace NodeKind

/-- All kinds, in the order in which they are listed. -/
def all : List NodeKind := [.environment, .project, .playbook, .hostGroup]

def name : NodeKind → String
  | .environment => "environment"
  | .project => "project"
  | .playbook => "playbook"
  | .hostGroup => "host group"

/-- A text in lower case (ASCII letters only), hyphens and underscores as blanks. -/
def normalized (s : String) : String :=
  .ofList (s.toList.map fun c => if c = '-' ∨ c = '_' then ' ' else c.toLower)

def unknownMessage (s : String) : String :=
  "unknown node kind '" ++ normalized s ++ "' (expected environment, project, playbook or host-group)"

/-- **The kind that a text names.** -/
def ofText? (s : String) : Option NodeKind :=
  match normalized s with
  | "environment" | "env" => some .environment
  | "project" => some .project
  | "playbook" => some .playbook
  | "host group" | "hostgroup" | "group" => some .hostGroup
  | _ => none

end NodeKind

end DeployInventory
