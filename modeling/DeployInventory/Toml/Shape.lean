import DeployInventory.NameMap
import DeployInventory.Toml.Value
/-!
# Toml.Shape — values of an expected shape

A structure is read from a table by the keys of its fields. One that knows all its fields beforehand is read from an
array as well, by their positions; items beyond them are not looked at. Keys that a structure does not have may hold
anything but numbers that are too large.
-/
namespace DeployInventory

namespace Toml

/-- The key under which a date-time stands where a table is expected. -/
def dateTimeKey : String := "$__toml_private_datetime"

mutual

/-- Whether a value holds no number, at any depth, that is too large: a float beyond the doubles, or an integer that is
not in a range, from the first bound up to below the second. -/
def Value.fits (low high : Int) : Value → Bool
  | .integer n => decide (low ≤ n) && decide (n < high)
  | .overflow _ => false
  | .array items => itemsFit low high items
  | .table entries => entriesFit low high entries
  | .string _ | .float _ | .boolean _ | .dateTime _ => true

def itemsFit (low high : Int) : List Value → Bool
  | [] => true
  | v :: rest => v.fits low high && itemsFit low high rest

def entriesFit (low high : Int) : List (String × Value) → Bool
  | [] => true
  | (_, v) :: rest => v.fits low high && entriesFit low high rest

end

mutual

/-- **A value of free shape.** Its integers have 64 bits with a sign. A table whose first key is that of a date-time is
one; it has to hold the text of a date-time, and nothing after that is looked at. -/
def Value.free? : Value → Option Value
  | .integer n => if -(twoTo 63 : Int) ≤ n ∧ n < twoTo 63 then some (.integer n) else none
  | .overflow _ => none
  | .array items => (freeItems? items).map .array
  | .table ((key, v) :: rest) =>
    if key = dateTimeKey then
      match v with
      | .string s => (DateTime.parse? s.toList).map .dateTime
      | _ => none
    else do
      let v ← v.free?
      return .table ((key, v) :: (← freeEntries? rest))
  | .table [] => some (.table [])
  | .string s => some (.string s)
  | .float x => some (.float x)
  | .boolean b => some (.boolean b)
  | .dateTime d => some (.dateTime d)

def freeItems? : List Value → Option (List Value)
  | [] => some []
  | v :: rest => do return (← v.free?) :: (← freeItems? rest)

def freeEntries? : List (String × Value) → Option Table
  | [] => some []
  | (key, v) :: rest => do return (key, ← v.free?) :: (← freeEntries? rest)

end

namespace Shape

def text : Value → Option String
  | .string s => some s
  | _ => none

def flag : Value → Option Bool
  | .boolean b => some b
  | _ => none

def int64 : Value → Option Int
  | .integer n => if -(twoTo 63 : Int) ≤ n ∧ n < twoTo 63 then some n else none
  | _ => none

/-- An array, item by item. -/
def list {α : Type} (read : Value → Option α) : Value → Option (List α)
  | .array items => items.mapM read
  | _ => none

/-- The entries of a table; a date-time is taken for a table with its text. -/
def entries : Value → Option Table
  | .table es => some es
  | .dateTime d => some [(dateTimeKey, .string d.text)]
  | _ => none

def valueTable (v : Value) : Option Table := (entries v).bind freeEntries?

/-- The entries of a structure that is always a table; `own` are the keys whose values have shapes of their own. -/
def openFields (own : List String) (v : Value) : Option Table := do
  let es ← entries v
  if entriesFit (-(twoTo 63 : Int)) (twoTo 64) (es.filter fun e => !own.contains e.1) then some es else none

/-- The entries of a structure whose keys are all declared, in order. -/
def closedFields (declared : List String) (v : Value) : Option Table :=
  match v with
  | .array items => some (declared.zip items)
  | v => do
    let es ← entries v
    if entriesFit (-(twoTo 127 : Int)) (twoTo 128) (es.filter fun e => !declared.contains e.1) then some es else none

def optional {α : Type} (es : Table) (key : String) (read : Value → Option α) : Option (Option α) :=
  match NameMap.valueOf? key es with
  | none => some none
  | some v => (read v).map some

def orDefault {α : Type} (es : Table) (key : String) (read : Value → Option α) (default : α) : Option α :=
  (optional es key read).map (·.getD default)

def required {α : Type} (es : Table) (key : String) (read : Value → Option α) : Option α :=
  (NameMap.valueOf? key es).bind read

end Shape

end Toml

end DeployInventory
