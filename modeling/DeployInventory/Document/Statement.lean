import DeployInventory.Document.Content
import DeployInventory.Document.Section
/-!
# Document.Statement — what a document says, in order

A document declares nodes and gives variables to them; `statements` lists both in the order of the sections. Numbering
the assignments from one on, below the number of the document where there are several, makes records of them: their ids
ascend in the order of the statements, and from one document to the next.
-/
namespace DeployInventory

/-- **Who owns the variables of a table.** -/
inductive Owner where
  | globals
  | environment (name : String)
  | project (name : String)
  | playbook (name : String)
  | play (playbook name : String)
deriving DecidableEq, Repr

def Owner.describe : Owner → String
  | globals => "global variables"
  | environment name => "environment '" ++ name ++ "'"
  | project name => "project '" ++ name ++ "'"
  | playbook name => "playbook '" ++ name ++ "'"
  | play book name => "play '" ++ book ++ "/" ++ name ++ "'"

/-- **What is wrong with the variables of a document.** -/
inductive DocumentError where
  /-- A name is not that of a variable. -/
  | invalidVariableName (name : String) (owner : Owner)
  /-- What stands under an environment among overrides is no table. -/
  | invalidOverride (environment : String) (owner : Owner)
  /-- A payload of a special table is no text. -/
  | invalidSpecialValue (name : String) (owner : Owner) (key : String)
deriving DecidableEq, Repr

def DocumentError.message : DocumentError → String
  | invalidVariableName name owner => "Invalid variable name '" ++ name ++ "' in " ++ owner.describe ++ "."
  | invalidOverride environment owner =>
    "Override '" ++ environment ++ "' in " ++ owner.describe ++ " must be a table of variables."
  | invalidSpecialValue name owner key =>
    "Variable '" ++ name ++ "' in " ++ owner.describe ++ ": '" ++ key ++ "' must be a string."

/-- A declaration, or a variable for an owner. -/
inductive Statement where
  | declare (r : Record)
  /-- The environment is that of an override; the owner's own variables have none. -/
  | assign (owner : Owner) (override : Option String) (name : String) (content : Variable)

def Owner.assignment (id : AssignmentId) (override : Option String) (name : String) (content : Variable) :
    Owner → Assignment
  | globals => { id, entry := ⟨name, none, content⟩ }
  | environment e => { id, entry := ⟨name, none, content⟩, environment := some e }
  | project p => { id, entry := ⟨name, none, content⟩, environment := override, project := some p }
  | playbook b => { id, entry := ⟨name, none, content⟩, environment := override, playbook := some b }
  | play b n =>
    { id, entry := ⟨name, none, content⟩, environment := override, playbook := some b, play := some n }

/-- Whether a character may start the name of a variable. -/
def isNameStart (c : Char) : Bool := c.isAlpha || c == '_'

/-- Whether a character may stand in the name of a variable. -/
def isNamePart (c : Char) : Bool := c.isAlphanum || c == '_' || c == '.' || c == '-'

/-- **Whether a text is the name of a variable**: an ASCII letter or an underscore, then letters, digits, underscores,
dots and hyphens. -/
def isVariableName (s : String) : Bool :=
  match s.toList with
  | [] => false
  | c :: rest => isNameStart c && rest.all isNamePart

namespace Statement

def ofTable (owner : Owner) (override : Option String) : Toml.Table → Except DocumentError (List Statement)
  | [] => .ok []
  | (name, v) :: rest =>
    if isVariableName name then
      match Variable.ofToml v with
      | .error key => .error (.invalidSpecialValue name owner key)
      | .ok content => (ofTable owner override rest).map (.assign owner override name content :: ·)
    else .error (.invalidVariableName name owner)

/-- The variables of tables of overrides, environment by environment. -/
def ofOverrides (owner : Owner) : Toml.Table → Except DocumentError (List Statement)
  | [] => .ok []
  | (environment, .table entries) :: rest => do
    return (← ofTable owner (some environment) entries) ++ (← ofOverrides owner rest)
  | (environment, _) :: _ => .error (.invalidOverride environment owner)

/-- A declaration, then its owner's variables and overrides. -/
def ofOwner (r : Record) (owner : Owner) (values overrides : Toml.Table) :
    Except DocumentError (List Statement) := do
  let own ← ofTable owner none values
  return .declare r :: own ++ (← ofOverrides owner overrides)

/-- The statements of several sections, one after the other. -/
def ofAll {α : Type} (f : α → Except DocumentError (List Statement)) :
    List α → Except DocumentError (List Statement)
  | [] => .ok []
  | a :: rest => do return (← f a) ++ (← ofAll f rest)

/-- The statements of a host group: the group, then its hosts. -/
def ofHostGroup (s : HostGroupSection) : List Statement :=
  .declare (.hostGroup s.record) :: s.hosts.map fun h => .declare (.host h)

def ofPlay (s : PlaySection) : Except DocumentError (List Statement) :=
  ofOwner (.play s.record) (.play s.record.playbook s.record.name) s.values s.overrides

/-- The statements of a playbook: its own, then those of its plays. -/
def ofPlaybook (s : PlaybookSection) : Except DocumentError (List Statement) := do
  let own ← ofOwner (.playbook s.record) (.playbook s.record.name) s.values s.overrides
  return own ++ (← ofAll ofPlay s.plays)

/-- The records of statements, the assignments numbered on from `next`. -/
def toRecords (number : Nat → AssignmentId) (next : Nat) : List Statement → List Record
  | [] => []
  | .declare r :: rest => r :: toRecords number next rest
  | .assign owner override name content :: rest =>
    .assignment (owner.assignment (number next) override name content) :: toRecords number (next + 1) rest

end Statement

namespace Document

/-- **The statements of a document**: global variables, environments, host groups, projects, then playbooks. -/
def statements (d : Document) : Except DocumentError (List Statement) := do
  let globals ← Statement.ofTable .globals none d.values
  let environments ← Statement.ofAll
    (fun s => Statement.ofOwner (.environment s.record) (.environment s.record.name) s.values []) d.environments
  let hostGroups := d.hostGroups.flatMap Statement.ofHostGroup
  let projects ← Statement.ofAll
    (fun s => Statement.ofOwner (.project s.record) (.project s.record.name) s.values s.overrides) d.projects
  let playbooks ← Statement.ofAll Statement.ofPlaybook d.playbooks
  return globals ++ environments ++ hostGroups ++ projects ++ playbooks

/-- The id of an assignment by its number, below the number of its document if that has one. -/
def assignmentId (file : Option UInt64) (n : Nat) : AssignmentId :=
  match file with
  | none => .root (UInt64.ofNat n)
  | some f => (AssignmentId.root f).child (UInt64.ofNat n)

/-- **The records of a document.** -/
def records (file : Option UInt64) (d : Document) : Except DocumentError (List Record) :=
  d.statements.map (Statement.toRecords (assignmentId file) 1)

end Document

end DeployInventory
