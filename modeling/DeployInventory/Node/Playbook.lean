import DeployInventory.Scope
/-!
# Node.Playbook — collections of plays
-/
namespace DeployInventory

/-- A play of a playbook. -/
structure Play where
  playbook : String
  name : String
  description : Option String := none
  tags : List String := []
  hostGroups : List String := []
  scope : Scope := {}
deriving Inhabited, Repr

namespace Play

/-- Takes over what a record declares; a description stays where the record has none. -/
def declare (n : Play) (r : PlayRecord) : Play :=
  { n with
    playbook := r.playbook, name := r.name, description := r.description.or n.description, tags := r.tags,
    hostGroups := r.hostGroups }

/-- Merges an assignment; one for an environment goes to an override. -/
def assign (n : Play) (a : Assignment) : Play := { n with scope := n.scope.assign a }

end Play

/-- **A collection of plays** that other playbooks can inherit from. -/
structure Playbook where
  name : String
  parents : List String := []
  isAbstract : Bool := false
  description : Option String := none
  scope : Scope := {}
  plays : NameMap Play := .empty
deriving Inhabited

namespace Playbook

def play? (n : Playbook) (play : String) : Option Play := n.plays.find? play

/-- Takes over what a record declares; a description stays where the record has none, and so do the plays. -/
def declare (n : Playbook) (r : PlaybookRecord) : Playbook :=
  { n with
    name := r.name, parents := r.parents, isAbstract := r.isAbstract,
    description := r.description.or n.description }

def declarePlay (n : Playbook) (r : PlayRecord) : Playbook :=
  { n with plays := n.plays.update r.name { playbook := n.name, name := r.name } (·.declare r) }

/-- Merges an assignment: into its play, which is made on its first use, or into the playbook itself. -/
def assign (n : Playbook) (a : Assignment) : Playbook :=
  match a.play with
  | none => { n with scope := n.scope.assign a }
  | some play => { n with plays := n.plays.update play { playbook := n.name, name := play } (·.assign a) }

end Playbook

end DeployInventory
