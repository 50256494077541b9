import DeployInventory.NameMap
import DeployInventory.Toml.Value
import DeployInventory.Variable.Basic
/-!
# Document.Content — the variables that values of a document stand for

Arrays are lists, tables are maps and all else are plain values, but for tables of three special shapes, which stand for
references, closures and sealed payloads. A table with one key more is an ordinary map.
-/
namespace DeployInventory

/-- **A table of a special shape**, its payloads as they are written. -/
inductive SpecialTable where
  /-- The only key is `ref`. -/
  | reference (name : Toml.Value)
  /-- The only key is `closure`. -/
  | closure (source : Toml.Value)
  /-- The only keys are `encrypted` and, at will, `key`. -/
  | encrypted (ciphertext : Toml.Value) (key : Option Toml.Value)

namespace SpecialTable

/-- The special shape of a table, if it has one. -/
def ofTable? : Toml.Table → Option SpecialTable
  | [("ref", v)] => some (.reference v)
  | [("closure", v)] => some (.closure v)
  | [("encrypted", v)] => some (.encrypted v none)
  | [("encrypted", v), ("key", k)] => some (.encrypted v (some k))
  | [("key", k), ("encrypted", v)] => some (.encrypted v (some k))
  | _ => none

/-- The text under a key; the error is the key. -/
def payload (key : String) : Toml.Value → Except String String
  | .string s => .ok s
  | _ => .error key

/-- The variable that a special table stands for; the error is a key with a payload that is no text. -/
def toVariable : SpecialTable → Except String Variable
  | reference v => (payload "ref" v).map .reference
  | closure v => (payload "closure" v).map .closure
  | encrypted v none => (payload "encrypted" v).map (.encrypted · none)
  | encrypted v (some k) => do
    let ciphertext ← payload "encrypted" v
    return .encrypted ciphertext (some (← payload "key" k))

end SpecialTable

namespace Variable

mutual

/-- **The variable that a value stands for.** The error is the key of the first special table, in the order of the
document, that has a payload that is no text. -/
def ofToml : Toml.Value → Except String Variable
  | .string s => .ok (.value (.string s))
  | .integer n => .ok (.value (.integer n))
  | .float x => .ok (.value (.ofBinary64 x))
  | .overflow isNegative => .ok (.value (.ofBinary64 (.infinity isNegative)))
  | .boolean b => .ok (.value (.bool b))
  | .dateTime d => .ok (.value (.string d.text))
  | .array items => (ofTomlItems items).map .list
  | .table entries =>
    match SpecialTable.ofTable? entries with
    | some s => s.toVariable
    | none => (ofTomlEntries entries).map fun l => .map (NameMap.ofList l).entries

def ofTomlItems : List Toml.Value → Except String (List Variable)
  | [] => .ok []
  | v :: rest => do return (← ofToml v) :: (← ofTomlItems rest)

def ofTomlEntries : List (String × Toml.Value) → Except String (List (String × Variable))
  | [] => .ok []
  | (key, v) :: rest => do return (key, ← ofToml v) :: (← ofTomlEntries rest)

end

end Variable

end DeployInventory
