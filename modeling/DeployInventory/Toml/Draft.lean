import DeployInventory.NameMap
import DeployInventory.Toml.Value
/-!
# Toml.Draft — tables under construction

Headers and dotted keys make tables on the way to the one that they name. How a table was made decides what may still
be added to it: a header takes over a table that headers further down implied, dotted keys extend only what dotted keys
or such headers made, and nothing extends a value written in full.
-/
namespace DeployInventory

namespace Toml

/-- How a table came to be. -/
inductive Origin where
  /-- Under a header of its own, or as an element of an array of tables. -/
  | header
  /-- On the way of a header to a table further down. -/
  | implied
  /-- On the way of a dotted key. -/
  | dotted
deriving DecidableEq, Repr

/-- **What stands under a key of a table under construction.** -/
inductive Draft where
  /-- A value written in full. -/
  | complete (v : Value)
  | table (origin : Origin) (entries : List (String × Draft))
  /-- An array of tables, made by headers. -/
  | tables (items : List (List (String × Draft)))
deriving Inhabited

namespace Draft

/-- The entries of a table under construction. -/
abbrev Entries := List (String × Draft)

/-- Puts a draft in place of the one under a key. -/
def replace (key : String) (d : Draft) (entries : Entries) : Entries :=
  entries.map fun e => if e.1 = key then (key, d) else e

def without (key : String) (entries : Entries) : Entries := entries.filter (·.1 != key)

/-- **Changes the table that a path leads to**, given how it was made and its entries. Missing tables are made on the
way; an array of tables is entered through its last element. Paths of dotted keys do not enter tables that have a
header. -/
def within (isDotted : Bool) (change : Origin → Entries → Option Entries) :
    (path : List String) → Origin → Entries → Option Entries
  | [], origin, entries => change origin entries
  | key :: path, _, entries =>
    match NameMap.valueOf? key entries with
    | none =>
      let origin := if isDotted then .dotted else .implied
      (within isDotted change path origin []).map fun inner => entries ++ [(key, .table origin inner)]
    | some (.complete _) => none
    | some (.tables items) =>
      match items.getLast? with
      | none => none
      | some last =>
        (within isDotted change path .header last).map fun inner =>
          replace key (.tables (items.dropLast ++ [inner])) entries
    | some (.table origin inner) =>
      if isDotted ∧ origin = .header then none
      else (within isDotted change path origin inner).map fun inner => replace key (.table origin inner) entries

/-- Gives a key its value. A dotted key ends in a table made by dotted keys, a plain one in one that is not; no key has
two values. -/
def assign (path : List String) (key : String) (v : Value) (entries : Entries) : Option Entries :=
  within true (fun origin inner =>
    if path.isEmpty = decide (origin = .dotted) then none
    else if (NameMap.valueOf? key inner).isSome then none
    else some (inner ++ [(key, .complete v)])) path .header entries

/-- Opens the table of a header, as the last of its siblings; an implied one keeps its entries. -/
def openTable (path : List String) (key : String) (entries : Entries) : Option Entries :=
  within false (fun _ inner =>
    match NameMap.valueOf? key inner with
    | none => some (inner ++ [(key, .table .header [])])
    | some (.table .implied own) => some (without key inner ++ [(key, .table .header own)])
    | some _ => none) path .header entries

def openElement (path : List String) (key : String) (entries : Entries) : Option Entries :=
  within false (fun _ inner =>
    match NameMap.valueOf? key inner with
    | none => some (inner ++ [(key, .tables [[]])])
    | some (.tables items) => some (replace key (.tables (items ++ [[]])) inner)
    | some _ => none) path .header entries

mutual

def finished : Draft → Value
  | complete v => v
  | table _ entries => .table (finishedEntries entries)
  | tables items => .array (finishedTables items)

def finishedEntries : List (String × Draft) → Table
  | [] => []
  | (key, d) :: rest => (key, finished d) :: finishedEntries rest

def finishedTables : List (List (String × Draft)) → List Value
  | [] => []
  | entries :: rest => .table (finishedEntries entries) :: finishedTables rest

end

end Draft

end Toml

end DeployInventory
