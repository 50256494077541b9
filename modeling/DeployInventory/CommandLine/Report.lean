import DeployInventory.CommandLine.Failure
import DeployInventory.Inventory.Validation
import DeployInventory.Pattern.Reader
import DeployInventory.Plan.Wire
import DeployInventory.Resolution.Wire
import DeployInventory.Variable.Render
/-!
# CommandLine.Report — what commands print

A report about an inventory is a text for the eye or a JSON document. JSON of one deployment keeps the order of the
fields of a deployment; all other JSON has its keys ascending.
-/
namespace DeployInventory

/-- What a command prints, and why it fails, if it does. -/
structure Report where
  output : String
  failure : Option CommandFailure := none

namespace Report

def lines (l : List String) : String := "".intercalate (l.map (· ++ "\n"))

def ofJson (j : Json) : Report := { output := lines [j.pretty] }

/-- A report that a failure may take the place of. -/
def ofExcept : Except CommandFailure Report → Report
  | .ok r => r
  | .error failure => { output := "", failure := some failure }

/-- A result whose error is made the failure of a command. -/
def orFail {ε α : Type} (failure : ε → CommandFailure) : Except ε α → Except CommandFailure α
  | .ok a => .ok a
  | .error cause => .error (failure cause)

/-- The position of a line in a list, counted from one. -/
def numbered (index : Nat) : String := "  " ++ .ofList (rightAligned 3 (toString (index + 1)).toList) ++ ". "

/-! ## Validation -/

def countLine (coloured : Bool) (title : String) (count : Nat) : String :=
  "  " ++ Paint.blue.column coloured 12 title ++ " " ++ toString count

/-- How many nodes of each kind and how many plans there are. -/
def counts (coloured : Bool) (l : LoadedInventory) : List String :=
  NodeKind.all.map (fun kind => countLine coloured kind.name (l.inventory.names kind).length) ++
    [countLine coloured "plans" l.plans.length]

/-- **The report on all hierarchies**, which fails where one has a problem. -/
def ofCheck (coloured : Bool) (l : LoadedInventory) : Report :=
  match l.inventory.problems with
  | [] => { output := lines (counts coloured l ++ ["", Paint.green.apply coloured "Inventory is valid."]) }
  | problems =>
    let problem (p : NodeKind × LineageError) :=
      "  " ++ Paint.boldRed.apply coloured "x" ++ " " ++ p.1.name ++ ": " ++ p.2.message
    { output := lines (counts coloured l ++ [""] ++ problems.map problem), failure := some (.problems problems.length) }

/-! ## Lineages -/

/-- A lineage for the eye; the node itself stands out. -/
def lineageText (coloured : Bool) (kind : NodeKind) (name : String) (order : List String) : String :=
  let label (n : String) := if n = name then Paint.boldGreen.apply coloured n else n
  lines (["", "--- " ++ Paint.bold.apply coloured "Lineage" ++ " of " ++ kind.name ++ " '" ++
      Paint.yellow.apply coloured name ++ "' ---"] ++
    order.mapIdx (fun i n => numbered i ++ label n) ++ [""])

/-- **The report on a node's lineage.** -/
def ofLineage (coloured : Bool) (inv : Inventory) (kind : NodeKind) (name : String) (ascending json : Bool) :
    Except CommandFailure Report := do
  let descending ← orFail (.lineage kind name) (inv.lineage kind name)
  let order := if ascending then descending.reverse else descending
  return if json then ofJson (.texts order) else { output := lineageText coloured kind name order }

/-! ## Plans -/

def entryText (coloured : Bool) (inv : Inventory) (e : ExpandedItem) : String :=
  match e.project with
  | none =>
    Paint.red.apply coloured ((e.item.search.or e.item.project).getD "?") ++ " " ++
      Paint.dimmed.apply coloured "(unresolved)"
  | some project =>
    let jobOrder := match e.effectiveJobOrder inv project with
      | .ok n => " " ++ Paint.dimmed.apply coloured ("[job order " ++ toString n ++ "]")
      | .error _ => ""
    let after := if e.item.dependsOn.isEmpty then ""
      else " " ++ Paint.dimmed.apply coloured "after" ++ " " ++ ", ".intercalate e.item.dependsOn
    Paint.green.apply coloured project ++ jobOrder ++ after

def orderText (coloured : Bool) (inv : Inventory) (session : SessionId) (p : DeployPlan)
    (entries : List ExpandedItem) : String :=
  let reversed := if p.reverseOrder then Paint.dimmed.apply coloured " (reversed)" else ""
  lines (["", "--- " ++ Paint.bold.apply coloured "Plan" ++ " '" ++ Paint.yellow.apply coloured p.name ++ "' @ " ++
      Paint.cyan.apply coloured p.environment ++ reversed ++ " ---",
      "  " ++ Paint.dimmed.apply coloured ("session " ++ (p.session.getD session).text)] ++
    entries.mapIdx (fun i e => numbered i ++ entryText coloured inv e) ++ [""])

/-- What JSON about a plan says of the plan itself. -/
def planFields (session : SessionId) (p : DeployPlan) : List (String × Json) :=
  [("plan", .string p.name), ("session", .string (p.session.getD session).text),
    ("environment", .string p.environment)]

def orderJson (session : SessionId) (p : DeployPlan) (entries : List ExpandedItem) : Json :=
  .object (planFields session p ++
    [("reverse_order", .bool p.reverseOrder), ("items", .array (entries.map (·.toJson)))])

def planOf (l : LoadedInventory) (name : String) : Except CommandFailure DeployPlan :=
  match l.plan? name with
  | some p => .ok p
  | none => .error (.unknownPlan name (l.plans.map (·.name)))

/-- **The report on the order of a plan.** -/
def ofOrder (coloured : Bool) (l : LoadedInventory) (session : SessionId) (plan : String) (json : Bool) :
    Except CommandFailure Report := do
  let p ← planOf l plan
  let entries ← orFail (.order p.name) (p.order Pattern.engine l.inventory)
  return if json then ofJson (orderJson session p entries).sorted
    else { output := orderText coloured l.inventory session p entries }

def deploymentsJson (session : SessionId) (p : DeployPlan) (deployments : List Deployment) : Json :=
  .object (planFields session p ++ [("deployments", .array (deployments.map (·.toJson)))])

/-- **The report on the deployments of a plan.** -/
def ofDeployments (l : LoadedInventory) (session : SessionId) (plan : String) : Except CommandFailure Report := do
  let p ← planOf l plan
  let resolved ← orFail (.deployments p.name) (p.deployments Pattern.engine l.inventory)
  return ofJson (deploymentsJson session p resolved).sorted

/-! ## Deployments -/

def hostLine (coloured : Bool) (h : Host) : String :=
  "    " ++ .ofList (leftAligned 20 h.name.toList) ++ " " ++ .ofList (leftAligned 20 h.address.toList) ++ " " ++
    Paint.dimmed.apply coloured h.hostGroup

def nameWidth (names : List String) : Nat := (names.map (·.utf8ByteSize)).foldl max 0

def variableLine (coloured explained : Bool) (width : Nat) (name : String) (r : ResolvedVariable) : String :=
  "    " ++ Paint.green.column coloured width name ++ " = " ++ r.entry.content.render coloured ++
    if explained then "  " ++ Paint.dimmed.apply coloured ("(" ++ r.origin ++ ")") else ""

/-- Lines, or a mark that there are none. -/
def orNone (coloured : Bool) (l : List String) : List String :=
  if l.isEmpty then ["    " ++ Paint.dimmed.apply coloured "(none)"] else l

def deploymentText (coloured explained : Bool) (d : Deployment) : String :=
  let width := nameWidth d.view.names
  lines (["", "--- " ++ Paint.bold.apply coloured "Deployment" ++ " '" ++ Paint.yellow.apply coloured d.project ++
        "' @ " ++ Paint.cyan.apply coloured d.environment ++ " ---",
      "  " ++ Paint.blue.column coloured 12 "job order" ++ " " ++ toString d.jobOrder,
      "", "  " ++ Paint.blue.apply coloured "hosts"] ++
    orNone coloured (d.hosts.map (hostLine coloured)) ++
    ["", "  " ++ Paint.blue.apply coloured "variables"] ++
    orNone coloured (d.view.entries.map fun (name, r) => variableLine coloured explained width name r) ++ [""])

/-- **The report on a deployment.** -/
def ofDeployment (coloured : Bool) (inv : Inventory) (project environment : String) (view : DeploymentView) :
    Except CommandFailure Report := do
  let d ← orFail (.deployment project environment) (inv.deployment project environment)
  return match view with
    | .plain => { output := deploymentText coloured false d }
    | .explained => { output := deploymentText coloured true d }
    | .json => ofJson d.toJson

/-- A variable as JSON, `null` where it is not defined. -/
def variableJson (name : String) (v : Option Variable) : Json :=
  .object [("name", .string name), ("variable", (v.map (·.toJson)).getD .null)]

/-- **The report on a variable of a deployment.** -/
def ofVariable (coloured : Bool) (inv : Inventory) (project environment name : String) (json : Bool) :
    Except CommandFailure Report := do
  let v ← orFail (.variable project name) (inv.variableIn? project environment name)
  if json then return ofJson (variableJson name v).sorted
  return { output := lines [match v with
    | some v => v.render coloured
    | none => Paint.dimmed.apply coloured "<undefined>"] }

/-- **The report that a command asks for.** -/
def ofCommand (coloured : Bool) (session : SessionId) (l : LoadedInventory) : Command → Report
  | .check => ofCheck coloured l
  | .lineage kind name ascending json => ofExcept (ofLineage coloured l.inventory kind name ascending json)
  | .order plan json => ofExcept (ofOrder coloured l session plan json)
  | .deployments plan => ofExcept (ofDeployments l session plan)
  | .deployment project environment view => ofExcept (ofDeployment coloured l.inventory project environment view)
  | .variable project environment name json => ofExcept (ofVariable coloured l.inventory project environment name json)

end Report

end DeployInventory
