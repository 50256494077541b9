import DeployInventory.Inventory.Basic
import DeployInventory.Plan.Basic
/-!
# Plan.Expansion — the projects that a plan names

Every item becomes one entry for each of its projects, in the order of the plan; an item without projects becomes one
entry without a project, so no item is lost. What the pattern of an item finds is up to a search engine, which is a
parameter here and in what is built on the entries.
-/
namespace DeployInventory

/-- **A search engine**: it reads a text as a pattern and tells which names the pattern matches. A text that is no
pattern has none. -/
abbrev SearchEngine := String → Option (String → Bool)

/-- **An item bound to one project**, or to none. -/
structure ExpandedItem where
  /-- The position of the item in its plan. -/
  index : Nat
  project : Option String
  item : DeployItem
deriving DecidableEq, Repr

namespace DeployItem

/-- The projects that a pattern finds: those not abstract, in the order of their names. A text that is no pattern
finds none. -/
def foundBy (engine : SearchEngine) (inv : Inventory) (pattern : String) : List String :=
  match engine pattern with
  | none => []
  | some found => (inv.projects.values.filter fun n => !n.isAbstract && found n.name).map (·.name)

/-- **The projects of an item**: the one it names, where it exists, or all that its pattern finds. -/
def projects (engine : SearchEngine) (inv : Inventory) (i : DeployItem) : List String :=
  match i.project, i.search with
  | some name, _ => if inv.projects.contains name then [name] else []
  | none, some pattern => foundBy engine inv pattern
  | none, none => []

def expand (engine : SearchEngine) (inv : Inventory) (index : Nat) (i : DeployItem) : List ExpandedItem :=
  match i.projects engine inv with
  | [] => [⟨index, none, i⟩]
  | names => names.map (⟨index, some ·, i⟩)

end DeployItem

namespace DeployPlan

/-- **The entries of a plan.** -/
def expand (engine : SearchEngine) (inv : Inventory) (p : DeployPlan) : List ExpandedItem :=
  p.items.zipIdx.flatMap fun (i, index) => i.expand engine inv index

end DeployPlan

end DeployInventory
