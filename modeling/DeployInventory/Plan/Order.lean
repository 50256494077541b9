import DeployInventory.Plan.Dependencies
import DeployInventory.Resolution.Deployment
/-!
# Plan.Order — the order in which a plan is carried out

Entries with a project come first, by job order and then by the order of dependencies; entries that agree in both keep
the order of the plan.
-/
namespace DeployInventory

/-- **Why a plan has no order.** -/
inductive ScheduleError where
  /-- Projects depend on each other in a circle, which is given with its first member at both ends. -/
  | dependencyCycle (members : List String)
  /-- The job order of a project is not known. -/
  | resolve (cause : ResolveError)
deriving DecidableEq, Repr

def ScheduleError.message : ScheduleError → String
  | .dependencyCycle members =>
    "Dependency cycle between deploy items involving project '" ++ members.head?.getD "" ++ "': " ++
      " -> ".intercalate members ++ "."
  | .resolve cause => cause.message

/-- The rank of an entry: none without a project. -/
inductive Rank where
  | ranked (jobOrder : Int) (position : Nat)
  | last
deriving DecidableEq, Repr

/-- Whether a rank comes before another or is the same. -/
def Rank.atMost : Rank → Rank → Bool
  | .ranked j p, .ranked k q => decide (j < k) || (decide (j = k) && decide (p ≤ q))
  | .ranked _ _, .last => true
  | .last, .ranked _ _ => false
  | .last, .last => true

namespace ExpandedItem

/-- The job order of an entry for a project: the item's own, else the project's. -/
def effectiveJobOrder (inv : Inventory) (e : ExpandedItem) (project : String) : Resolved Int :=
  match e.item.jobOrder with
  | some n => .ok n
  | none => inv.jobOrder project

/-- The rank of an entry, given the order of dependencies. -/
def rank (inv : Inventory) (order : List String) (e : ExpandedItem) : Resolved Rank :=
  match e.project with
  | none => .ok .last
  | some project => (e.effectiveJobOrder inv project).map fun n => .ranked n (order.idxOf project)

end ExpandedItem

namespace DeployPlan

/-- The entries of a plan with their ranks, in the order of the plan. -/
def rankedItems (inv : Inventory) (order : List String) (items : List ExpandedItem) :
    Resolved (List (Rank × ExpandedItem)) :=
  items.mapM fun e => (e.rank inv order).map (·, e)

/-- Entries in the order of their ranks; equal ranks stay in order. -/
def sortByRank (items : List (Rank × ExpandedItem)) : List ExpandedItem :=
  (items.mergeSort fun x y => x.1.atMost y.1).map Prod.snd

/-- **The entries of a plan in the order in which they are carried out.** -/
def order (engine : SearchEngine) (inv : Inventory) (p : DeployPlan) : Except ScheduleError (List ExpandedItem) :=
  let items := p.expand engine inv
  match dependencyOrder items with
  | .error members => .error (.dependencyCycle members)
  | .ok projects =>
    match rankedItems inv projects items with
    | .error cause => .error (.resolve cause)
    | .ok ranked => .ok (if p.reverseOrder then (sortByRank ranked).reverse else sortByRank ranked)

/-- **The deployments of a plan**, in the order of the plan; entries without a project have none. -/
def deployments (engine : SearchEngine) (inv : Inventory) (p : DeployPlan) : Resolved (List Deployment) :=
  ((p.expand engine inv).filterMap (·.project)).mapM fun project => inv.deployment project p.environment

end DeployPlan

end DeployInventory
