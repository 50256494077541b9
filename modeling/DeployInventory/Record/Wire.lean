import DeployInventory.Record.Basic
import DeployInventory.Variable.Wire
import DeployInventory.Json.Printer
/-!
# Record.Wire — records as JSON

A record is an object whose field `kind` says what it declares; the other fields follow in one fixed order. When a
record is read, fields are looked at in the order of their keys, and a required field that is absent is missed last.
-/
namespace DeployInventory

open Wire

namespace EnvironmentRecord

/-- The keys of the fields in the order in which they are written. -/
def keys : List String := ["name", "parents", "abstract", "description"]

def toFields (r : EnvironmentRecord) : List (String × Json) :=
  [("name", .string r.name), ("parents", .texts r.parents), ("abstract", .bool r.isAbstract),
    ("description", .textOrNull r.description)]

def ofJson (j : Json) : Decoded EnvironmentRecord := do
  let fs ← fields keys j
  let isAbstract ← orDefault fs "abstract" flag false
  let description ← optional fs "description" text
  let name ← present fs "name" text
  let parents ← orDefault fs "parents" (list text) []
  return { name := ← required name, parents, isAbstract, description }

end EnvironmentRecord

namespace ProjectRecord

/-- The keys of the fields in the order in which they are written. -/
def keys : List String := ["name", "parents", "abstract", "description", "job_order", "host_groups"]

def toFields (r : ProjectRecord) : List (String × Json) :=
  [("name", .string r.name), ("parents", .texts r.parents), ("abstract", .bool r.isAbstract),
    ("description", .textOrNull r.description), ("job_order", .integerOrNull r.jobOrder),
    ("host_groups", .texts r.hostGroups)]

def ofJson (j : Json) : Decoded ProjectRecord := do
  let fs ← fields keys j
  let isAbstract ← orDefault fs "abstract" flag false
  let description ← optional fs "description" text
  let hostGroups ← orDefault fs "host_groups" (list text) []
  let jobOrder ← optional fs "job_order" int64
  let name ← present fs "name" text
  let parents ← orDefault fs "parents" (list text) []
  return { name := ← required name, parents, isAbstract, description, jobOrder, hostGroups }

end ProjectRecord

namespace HostGroupRecord

/-- The keys of the fields in the order in which they are written. -/
def keys : List String := ["name", "parents", "description"]

def toFields (r : HostGroupRecord) : List (String × Json) :=
  [("name", .string r.name), ("parents", .texts r.parents), ("description", .textOrNull r.description)]

def ofJson (j : Json) : Decoded HostGroupRecord := do
  let fs ← fields keys j
  let description ← optional fs "description" text
  let name ← present fs "name" text
  let parents ← orDefault fs "parents" (list text) []
  return { name := ← required name, parents, description }

end HostGroupRecord

namespace HostRecord

/-- The keys of the fields in the order in which they are written. -/
def keys : List String := ["name", "host_group", "address", "environment"]

def toFields (r : HostRecord) : List (String × Json) :=
  [("name", .string r.name), ("host_group", .string r.hostGroup), ("address", .string r.address),
    ("environment", .textOrNull r.environment)]

def ofJson (j : Json) : Decoded HostRecord := do
  let fs ← fields keys j
  let address ← present fs "address" text
  let environment ← optional fs "environment" text
  let hostGroup ← present fs "host_group" text
  let name ← present fs "name" text
  return { name := ← required name, hostGroup := ← required hostGroup, address := ← required address, environment }

end HostRecord

namespace PlaybookRecord

/-- The keys of the fields in the order in which they are written. -/
def keys : List String := ["name", "parents", "abstract", "description"]

def toFields (r : PlaybookRecord) : List (String × Json) :=
  [("name", .string r.name), ("parents", .texts r.parents), ("abstract", .bool r.isAbstract),
    ("description", .textOrNull r.description)]

def ofJson (j : Json) : Decoded PlaybookRecord := do
  let fs ← fields keys j
  let isAbstract ← orDefault fs "abstract" flag false
  let description ← optional fs "description" text
  let name ← present fs "name" text
  let parents ← orDefault fs "parents" (list text) []
  return { name := ← required name, parents, isAbstract, description }

end PlaybookRecord

namespace PlayRecord

/-- The keys of the fields in the order in which they are written. -/
def keys : List String := ["playbook", "name", "description", "tags", "host_groups"]

def toFields (r : PlayRecord) : List (String × Json) :=
  [("playbook", .string r.playbook), ("name", .string r.name), ("description", .textOrNull r.description),
    ("tags", .texts r.tags), ("host_groups", .texts r.hostGroups)]

def ofJson (j : Json) : Decoded PlayRecord := do
  let fs ← fields keys j
  let description ← optional fs "description" text
  let hostGroups ← orDefault fs "host_groups" (list text) []
  let name ← present fs "name" text
  let playbook ← present fs "playbook" text
  let tags ← orDefault fs "tags" (list text) []
  return { playbook := ← required playbook, name := ← required name, description, tags, hostGroups }

end PlayRecord

namespace Assignment

/-- The keys of the fields in the order in which they are written. -/
def keys : List String := ["id", "variable", "disabled", "environment", "project", "playbook", "play"]

/-- A text field that is written only where there is a text. -/
def scopeField (key : String) : Option String → List (String × Json)
  | none => []
  | some s => [(key, .string s)]

def toFields (a : Assignment) : List (String × Json) :=
  [("id", .string a.id.text), ("variable", a.entry.toJson), ("disabled", .bool a.disabled)] ++
    scopeField "environment" a.environment ++ scopeField "project" a.project ++
    scopeField "playbook" a.playbook ++ scopeField "play" a.play

/-- An assignment in the course of reading. -/
structure Draft where
  id : Option AssignmentId := none
  entry : Option VariableEntry := none
  disabled : Bool := false
  environment : Option String := none
  project : Option String := none
  playbook : Option String := none
  play : Option String := none

namespace Draft

def takeField (inRecord : Bool) (d : Draft) (key : String) (j : Json) : Decoded Draft :=
  match key with
  | "id" => do return { d with id := some (← Wire.id j) }
  | "variable" => do return { d with entry := some (← VariableEntry.read inRecord j) }
  | "disabled" => do return { d with disabled := ← flag j }
  | "environment" => do return { d with environment := ← textOrNull j }
  | "project" => do return { d with project := ← textOrNull j }
  | "playbook" => do return { d with playbook := ← textOrNull j }
  | "play" => do return { d with play := ← textOrNull j }
  | _ => .ok d

/-- The assignment of a draft that has an id and an entry. -/
def finish (d : Draft) : Decoded Assignment := do
  return {
    id := ← required d.id
    entry := ← required d.entry
    disabled := d.disabled
    environment := d.environment
    project := d.project
    playbook := d.playbook
    play := d.play }

end Draft

/-- Reads an assignment, on its own or as a record. -/
def read (inRecord : Bool) (j : Json) : Decoded Assignment := do
  (← foldFields keys (Draft.takeField inRecord) {} j).finish

def ofJson (j : Json) : Decoded Assignment := read false j

end Assignment

namespace Record

/-- The value of the field `kind`. -/
def kindName : Record → String
  | .environment _ => "environment"
  | .project _ => "project"
  | .hostGroup _ => "host_group"
  | .host _ => "host"
  | .playbook _ => "playbook"
  | .play _ => "play"
  | .assignment _ => "assignment"

/-- The fields after `kind`. -/
def toFields : Record → List (String × Json)
  | .environment r => r.toFields
  | .project r => r.toFields
  | .hostGroup r => r.toFields
  | .host r => r.toFields
  | .playbook r => r.toFields
  | .play r => r.toFields
  | .assignment a => a.toFields

/-- **Writes a record.** -/
def toJson (r : Record) : Json := .object (("kind", .string r.kindName) :: r.toFields)

/-- Reads what a kind of record has besides its kind. -/
def ofKind (kind : String) (j : Json) : Decoded Record :=
  match kind with
  | "environment" => (EnvironmentRecord.ofJson j).map .environment
  | "project" => (ProjectRecord.ofJson j).map .project
  | "host_group" => (HostGroupRecord.ofJson j).map .hostGroup
  | "host" => (HostRecord.ofJson j).map .host
  | "playbook" => (PlaybookRecord.ofJson j).map .playbook
  | "play" => (PlayRecord.ofJson j).map .play
  | "assignment" => (Assignment.read true j).map .assignment
  | _ => .error .shape

/-- **Reads a record**: an object by its field `kind`, or an array whose first item is the kind. -/
def ofJson : Json → Decoded Record
  | .object fs => do
    let kind ← required (← present fs "kind" text)
    ofKind kind (.object (fs.filter fun e => e.1 != "kind"))
  | .array (.string kind :: items) => ofKind kind (.array items)
  | _ => .error .shape

def streamToJson (records : List Record) : Json := .array (records.map toJson)

end Record

end DeployInventory
