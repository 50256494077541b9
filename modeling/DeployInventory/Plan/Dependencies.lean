import DeployInventory.Plan.Expansion
/-!
# Plan.Dependencies — the order that dependencies ask for

The nodes are the projects of a plan's entries in the order of their first appearance, and a project waits for the
projects of the plan that its items depend on. `emit` takes the earliest node that waits for none of those left, again
and again. Where every node left waits for another one left, walking back from one of them closes a cycle.
-/
namespace DeployInventory

/-- **A project of a plan**, with the projects of the plan that it depends on. -/
structure DependencyNode where
  project : String
  waitsFor : List String
deriving DecidableEq, Repr

namespace DependencyNode

/-- The values of a list, each once, at its first place. -/
def distinct : List String → List String
  | [] => []
  | n :: rest => n :: (distinct rest).filter (· != n)

/-- The projects of a plan's entries, in the order of their first appearance. -/
def projects (items : List ExpandedItem) : List String := distinct (items.filterMap (·.project))

/-- The projects that a project depends on, in the order in which its items list them. -/
def dependencies (items : List ExpandedItem) (project : String) : List String :=
  distinct ((items.filter (·.project == some project)).flatMap (·.item.dependsOn))

/-- **The nodes of a plan.** A dependency on a project that is not in the plan does not count. -/
def ofItems (items : List ExpandedItem) : List DependencyNode :=
  let all := projects items
  all.map fun p => ⟨p, (dependencies items p).filter (all.contains ·)⟩

/-- Whether a project is that of one of the nodes. -/
def isAmong (project : String) (nodes : List DependencyNode) : Bool := nodes.any (·.project == project)

/-- The first node that waits for none of those left. -/
def ready? (left : List DependencyNode) : Option DependencyNode :=
  left.find? fun n => n.waitsFor.all (!isAmong · left)

theorem length_erase_lt {nodes : List DependencyNode} {n : DependencyNode} (h : n ∈ nodes) :
    (nodes.erase n).length < nodes.length := by
  have := List.length_pos_of_mem h
  rw [List.length_erase_of_mem h]
  omega

/-- **Takes ready nodes, the earliest first, as long as there are any**: their projects, and the nodes left. -/
def emit (left : List DependencyNode) : List String × List DependencyNode :=
  match h : ready? left with
  | none => ([], left)
  | some n =>
    have _fewer : (left.erase n).length < left.length := length_erase_lt (List.mem_of_find?_eq_some h)
    let (taken, stuck) := emit (left.erase n)
    (n.project :: taken, stuck)
termination_by left.length

/-- Walks from a project to the first stuck one that it waits for, until one comes again; `path` are the projects
walked through, the last first, and `fresh` the stuck nodes not among them. The cycle starts and ends with the last
project walked through. -/
def walkBack (stuck fresh : List DependencyNode) (path : List String) (current : String) : List String :=
  match h : fresh.find? (·.project == current) with
  | none =>
    let around := path.takeWhile (· != current) ++ [current]
    around ++ around.take 1
  | some n =>
    match n.waitsFor.find? (isAmong · stuck) with
    | none => (current :: path).reverse
    | some next =>
      have _fewer : (fresh.erase n).length < fresh.length := length_erase_lt (List.mem_of_find?_eq_some h)
      walkBack stuck (fresh.erase n) (current :: path) next
termination_by fresh.length

/-- **A cycle among stuck nodes**, in the order of dependencies: every member waits for the one before it. -/
def cycleOf : List DependencyNode → List String
  | [] => []
  | n :: stuck => walkBack (n :: stuck) (n :: stuck) [] n.project

end DependencyNode

/-- **The projects of a plan's entries, dependencies first**; among ready ones the first in the plan goes first. The
error is a cycle. -/
def dependencyOrder (items : List ExpandedItem) : Except (List String) (List String) :=
  match DependencyNode.emit (DependencyNode.ofItems items) with
  | (taken, []) => .ok taken
  | (_, n :: stuck) => .error (DependencyNode.cycleOf (n :: stuck))

end DeployInventory
