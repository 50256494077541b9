import DeployInventory.History.Basic
/-!
# History.Wire — histories as JSON

A history is an object with two maps: the commits under their ids and the branches under their names.
-/
namespace DeployInventory

open Wire

namespace Commit

/-- The keys of the fields in the order in which they are written. -/
def keys : List String := ["id", "parent", "message", "records"]

def toJson (c : Commit) : Json :=
  .object [("id", .string c.id), ("parent", .textOrNull c.parent), ("message", .string c.message),
    ("records", Record.streamToJson c.records)]

/-- A commit in the course of reading. -/
structure Draft where
  id : Option String := none
  parent : Option String := none
  message : Option String := none
  records : Option (List Record) := none

def Draft.takeField (d : Draft) (key : String) (j : Json) : Decoded Draft :=
  match key with
  | "id" => do return { d with id := some (← text j) }
  | "parent" => do return { d with parent := ← textOrNull j }
  | "message" => do return { d with message := some (← text j) }
  | "records" => do return { d with records := some (← list Record.ofJson j) }
  | _ => .ok d

def ofJson (j : Json) : Decoded Commit := do
  let d ← foldFields keys Draft.takeField {} j
  return { id := ← required d.id, parent := d.parent, message := ← required d.message, records := ← required d.records }

end Commit

namespace Branch

def toJson (b : Branch) : Json := .object [("name", .string b.name), ("head", .textOrNull b.head)]

/-- Reads a branch; an array has to hold both fields. -/
def ofJson : Json → Decoded Branch
  | .array [name, head] => do return { name := ← text name, head := ← textOrNull head }
  | .object fs => do
    let head ← optional fs "head" text
    let name ← present fs "name" text
    return { name := ← required name, head }
  | _ => .error .shape

end Branch

namespace History

/-- The keys of the fields in the order in which they are written. -/
def keys : List String := ["commits", "branches"]

/-- **Writes a history.** -/
def toJson (h : History) : Json :=
  .object [("commits", .object (h.commits.map (·.toJson)).entries),
    ("branches", .object (h.branches.map (·.toJson)).entries)]

/-- A history in the course of reading. -/
structure Draft where
  commits : Option (List (String × Commit)) := none
  branches : Option (List (String × Branch)) := none

def Draft.takeField (d : Draft) (key : String) (j : Json) : Decoded Draft :=
  match key with
  | "commits" => do return { d with commits := some (← map Commit.ofJson j) }
  | "branches" => do return { d with branches := some (← map Branch.ofJson j) }
  | _ => .ok d

/-- **Reads a history.** Nothing is checked of how its commits hang together. -/
def ofJson (j : Json) : Decoded History := do
  let d ← foldFields keys Draft.takeField {} j
  return { commits := .ofList (← required d.commits), branches := .ofList (← required d.branches) }

end History

end DeployInventory
