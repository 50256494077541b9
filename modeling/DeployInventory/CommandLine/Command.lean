import DeployInventory.CommandLine.Arguments
import DeployInventory.NodeKind
/-!
# CommandLine.Command — what the program can be asked to do
-/
namespace DeployInventory

/-- How a deployment is shown. -/
inductive DeploymentView where
  | plain
  /-- With the layer that each variable comes from. -/
  | explained
  | json
deriving DecidableEq, Repr

/-- **What the program is asked to do.** -/
inductive Command where
  /-- Check every hierarchy. -/
  | check
  /-- Show a node and its ancestors. -/
  | lineage (kind : NodeKind) (name : String) (ascending json : Bool)
  /-- Show the order in which a plan is carried out. -/
  | order (plan : String) (json : Bool)
  /-- Resolve every deployment of a plan. -/
  | deployments (plan : String)
  /-- Resolve one deployment. -/
  | deployment (project environment : String) (view : DeploymentView)
  /-- Resolve one variable of a deployment. -/
  | variable (project environment name : String) (json : Bool)
deriving DecidableEq, Repr

/-- The names under which commands are called. -/
inductive CommandName where
  | check
  | lineage
  | order
  | resolve
deriving DecidableEq, Repr

namespace CommandName

/-- All names, in the order in which they are listed. -/
def all : List CommandName := [.check, .lineage, .order, .resolve]

def text : CommandName → String
  | .check => "check"
  | .lineage => "lineage"
  | .order => "order"
  | .resolve => "resolve"

def aliases : CommandName → List String
  | .check => ["validate"]
  | .lineage => ["mro"]
  | .order => ["plan"]
  | .resolve => ["res", "get"]

/-- **The command name that a text stands for.** -/
def ofText? (s : String) : Option CommandName := all.find? fun n => n.text == s || n.aliases.contains s

def helpOption : OptionForm := ⟨"help", some 'h', .question, "Print help"⟩

def jsonOption : OptionForm := ⟨"json", none, .flag, "Print JSON instead of text"⟩

def form : CommandName → ArgumentForm
  | .check =>
    { purpose := "Checks that every hierarchy of the inventory linearizes.", program := "strata check"
      options := [helpOption] }
  | .lineage =>
    { purpose := "Prints the linearized inheritance hierarchy of a node.", program := "strata lineage"
      operands := [⟨"KIND", "Node kind: environment, project, playbook or host-group"⟩, ⟨"NAME", "Node name"⟩]
      options := [⟨"ascending", some 'a', .flag, "Most specific first instead of most general first"⟩, jsonOption,
        helpOption] }
  | .order =>
    { purpose := "Prints the execution order of a deploy plan.", program := "strata order"
      operands := [⟨"PLAN", "The plan to order"⟩]
      options := [⟨"resolve", some 'r', .flag, "Resolve every deployment of the plan and print it as JSON"⟩, jsonOption,
        helpOption] }
  | .resolve =>
    { purpose := "Resolves the configuration of a project deployed to an environment.", program := "strata resolve"
      operands := [⟨"PROJECT", "The project to deploy"⟩]
      options := [⟨"env", some 'e', .value, "The target environment"⟩,
        ⟨"get", some 'g', .value, "Print a single variable, following references"⟩,
        ⟨"explain", some 'x', .flag, "Show the layer each variable comes from"⟩, jsonOption, helpOption] }

def kindOf (s : String) : Except ArgumentFault NodeKind :=
  match NodeKind.ofText? s with
  | some kind => .ok kind
  | none => .error (.invalid "KIND" s (NodeKind.unknownMessage s))

/-- The command that is meant by what a command line holds. -/
def commandOf (n : CommandName) (a : Arguments) : Except ArgumentFault Command := do
  match n with
  | .check => return .check
  | .lineage =>
    let kind ← kindOf (← a.operand n.form 0)
    return .lineage kind (← a.operand n.form 1) (a.has "ascending") (a.has "json")
  | .order =>
    let plan ← a.operand n.form 0
    return if a.has "resolve" then .deployments plan else .order plan (a.has "json")
  | .resolve =>
    let project ← a.operand n.form 0
    let environment ← a.required "env"
    match a.value? "get" with
    | some name => return .variable project environment name (a.has "json")
    | none =>
      return .deployment project environment
        (if a.has "json" then .json else if a.has "explain" then .explained else .plain)

/-- **Reads the command line of a command.** -/
def read (n : CommandName) (texts : List String) : Except ArgumentFault Command := do n.commandOf (← n.form.read texts)

end CommandName

/-- **How the program is called**: an inventory, the name of a command, and the command's own command line. -/
structure Invocation where
  /-- The path of the inventory, if one is given. -/
  file : Option String
  command : Option String
  arguments : List String
deriving DecidableEq, Repr

namespace Invocation

def form : ArgumentForm where
  purpose := "strata: hierarchical configuration resolution for deployment plans."
  program := "strata"
  operands := [⟨"COMMAND", "The command to run: check, lineage, order or resolve"⟩]
  options := [⟨"file", some 'f', .value, "Inventory file or directory"⟩, CommandName.helpOption,
    ⟨"version", some 'V', .question, "Print version"⟩]
  passesRest := true

/-- **Reads the program's command line.** -/
def read (texts : List String) : Except ArgumentFault Invocation := do
  let a ← form.read texts
  return ⟨a.value? "file", a.operands.head?, a.rest⟩

end Invocation

end DeployInventory
