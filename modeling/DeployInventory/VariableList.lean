import DeployInventory.Record.Basic
/-!
# VariableList — assignments merged into lists of variables

A list has two regions: entries without an id, then entries with ids, ascending. `merge` puts one assignment into a
list. It looks for the place from the end, since assignments tend to arrive in the order of their ids, and stops at the
first entry that is not larger.
-/
namespace DeployInventory

/-- **A list of variables**: entries without an id, then entries with ascending ids. -/
abbrev VariableList := List VariableEntry

/-- What a merge did to the list. -/
inductive MergeOutcome where
  /-- A new entry stands at the position. -/
  | inserted (index : Nat)
  /-- The entry at the position, which had the same id, gave way. -/
  | replaced (index : Nat)
  /-- So many entries with the id of a disabled assignment are gone. -/
  | removed (count : Nat)
deriving DecidableEq, Repr

/-- The entry that an assignment puts into a list: its variable, under the assignment's own id. -/
def Assignment.placed (a : Assignment) : VariableEntry := { a.entry with id := some a.id }

namespace VariableList

/-- Puts an entry in its place in a list that runs from the last entry to the first. -/
def place (e : VariableEntry) (id : AssignmentId) : List VariableEntry → List VariableEntry × MergeOutcome
  | [] => ([e], .inserted 0)
  | f :: before =>
    match f.id with
    | none => (e :: f :: before, .inserted (before.length + 1))
    | some i =>
      match compare i id with
      | .lt => (e :: f :: before, .inserted (before.length + 1))
      | .eq => (e :: before, .replaced before.length)
      | .gt =>
        let (placed, outcome) := place e id before
        (f :: placed, outcome)

def carries (id : AssignmentId) (e : VariableEntry) : Bool := e.id == some id

/-- **Merges one assignment**: an enabled one puts its entry in place, a disabled one erases the entries with its id.
-/
def merge (l : VariableList) (a : Assignment) : VariableList × MergeOutcome :=
  if a.disabled then (l.filter (!carries a.id ·), .removed (l.countP (carries a.id)))
  else
    let (placed, outcome) := place a.placed a.id l.reverse
    (placed.reverse, outcome)

/-- Merges an assignment, whatever it does. -/
def assign (l : VariableList) (a : Assignment) : VariableList := (l.merge a).1

/-- **Merges assignments in turn.** -/
def assignAll (l : VariableList) (log : List Assignment) : VariableList := log.foldl assign l

def inOrder (e f : VariableEntry) : Bool :=
  match e.id, f.id with
  | none, _ => true
  | some _, none => false
  | some i, some j => decide (i < j)

/-- **Whether a list has its two regions**: looks at neighbours only. -/
def isWellOrdered : VariableList → Bool
  | e :: f :: rest => inOrder e f && isWellOrdered (f :: rest)
  | _ => true

end VariableList

end DeployInventory
