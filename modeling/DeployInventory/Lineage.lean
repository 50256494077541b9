import DeployInventory.NameMap
import DeployInventory.Unmet
/-!
# Lineage — orders of inheritance

A hierarchy gives every node the list of its declared parents. `walkParents` goes through the ancestors of a node depth
first, parents in the order of their declaration; it enters every node once, refuses unknown parents and cycles, and
stops early where it is told to. `descending` lists the nodes a walk has left, ancestors before their descendants.
-/
namespace DeployInventory

/-- **The declared parents of every node.** -/
abbrev Hierarchy := NameMap (List String)

/-- What is wrong with a hierarchy. -/
inductive LineageError where
  /-- A node does not exist; the second name is the node that declares it as a parent, if one does. -/
  | missingNode (name : String) (referencedBy : Option String)
  /-- A node inherits from itself: the cycle from that node back to it. -/
  | cyclic (cycle : List String)
deriving DecidableEq, Repr

def LineageError.message : LineageError → String
  | .missingNode name none => "Unknown node '" ++ name ++ "'."
  | .missingNode name (some child) =>
    "Unknown node '" ++ name ++ "' referenced as a parent of '" ++ child ++ "'."
  | .cyclic cycle => "Cyclic inheritance detected: " ++ " -> ".intercalate cycle ++ "."

namespace Hierarchy

/-- How a walk ends: at a node that stops it, or with all nodes left, the last one first. -/
inductive Outcome (α : Type) where
  | stopped (a : α)
  | left (nodes : List String)

/-- The cycle that a path closes when it comes back to one of its nodes; paths run from the last node to the first. -/
def cycleOf (path : List String) (back : String) : List String :=
  back :: (path.takeWhile (· != back)).reverse ++ [back]

/-- **Walks through parents and their ancestors.** `path` leads from the child that declares the parents back to the
start; `left` are the nodes left so far. A node that was left is not entered again. -/
def walkParents {α : Type} (h : Hierarchy) (stop : String → Option α) (child : String) (path : List String) :
    (parents left : List String) → Except LineageError (Outcome α)
  | [], left => .ok (.left left)
  | p :: rest, left =>
    if p ∈ left then walkParents h stop child path rest left
    else if hp : p ∈ path then .error (.cyclic (cycleOf path p))
    else match hn : h.find? p with
      | none => .error (.missingNode p (some child))
      | some grandparents =>
        have _fewer : (unmet h.names (p :: path)).length < (unmet h.names path).length :=
          unmet_cons_lt (NameMap.mem_names.2 ⟨_, hn⟩) hp
        match stop p with
        | some a => .ok (.stopped a)
        | none =>
          match walkParents h stop p (p :: path) grandparents left with
          | .error e => .error e
          | .ok (.stopped a) => .ok (.stopped a)
          | .ok (.left done) => walkParents h stop child path rest (p :: done)
termination_by parents => ((unmet h.names path).length, parents.length)
decreasing_by
  · exact Prod.Lex.right _ (by simp)
  · exact Prod.Lex.left _ _ _fewer
  · exact Prod.Lex.right _ (by simp)

def walk {α : Type} (h : Hierarchy) (stop : String → Option α) (start : String) : Except LineageError (Outcome α) :=
  match h.find? start with
  | none => .error (.missingNode start none)
  | some parents =>
    match stop start with
    | some a => .ok (.stopped a)
    | none => walkParents h stop start [start] parents []

/-- The ancestors of a node, the node itself aside, the nearest first. -/
def ancestors (h : Hierarchy) (start : String) : Except LineageError (List String) :=
  match walk h (fun _ => (none : Option Empty)) start with
  | .error e => .error e
  | .ok (.stopped a) => nomatch a
  | .ok (.left nodes) => .ok nodes

/-- **A node and all its ancestors, the node first**: the reverse of `descending`. -/
def ascending (h : Hierarchy) (start : String) : Except LineageError (List String) :=
  (h.ancestors start).map (start :: ·)

/-- **A node and all its ancestors, ancestors before their descendants**, the node last. -/
def descending (h : Hierarchy) (start : String) : Except LineageError (List String) :=
  (h.ascending start).map List.reverse

/-- The ancestors of a node, the most general first. -/
def descendingParents (h : Hierarchy) (start : String) : Except LineageError (List String) :=
  (h.ancestors start).map List.reverse

/-- **Whether a node inherits from another**, directly or through others. -/
def isAncestor (h : Hierarchy) (ancestor node : String) : Except LineageError Bool :=
  (h.descendingParents node).map fun l => l.contains ancestor

/-- **The nearest value of an inherited attribute**: the node's own, else the first one met among its ancestors. -/
def nearest {α : Type} (h : Hierarchy) (own : String → Option α) (start : String) :
    Except LineageError (Option α) :=
  match walk h own start with
  | .error e => .error e
  | .ok (.stopped a) => .ok (some a)
  | .ok (.left _) => .ok none

end Hierarchy

end DeployInventory
