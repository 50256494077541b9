import DeployInventory.AssignmentId
import DeployInventory.Json.Basic
/-!
# Variable — typed configuration values

A variable is a plain document, a reference to another variable, a list or a map of variables, a closure kept as
source, or a sealed payload. An entry of a variable list names its variable and may carry the id of the assignment it
comes from.
-/
namespace DeployInventory

/-- **A configuration value.** A map has its entries ascending by name. -/
inductive Variable where
  /-- A document; `null` is a value like any other. -/
  | value (document : Json)
  /-- Another variable, by name. -/
  | reference (name : String)
  /-- Several variables in order. -/
  | list (items : List Variable)
  /-- Named variables. -/
  | map (entries : List (String × Variable))
  /-- A computation kept as its source; it is never run. -/
  | closure (source : String)
  /-- A sealed payload and the alias of the key that sealed it. -/
  | encrypted (ciphertext : String) (key : Option String)
deriving Inhabited, Repr

/-- The kinds of variables. -/
inductive VariableKind where
  | value
  | reference
  | list
  | map
  | closure
  | encrypted
deriving DecidableEq, Repr, Inhabited

def VariableKind.name : VariableKind → String
  | .value => "value"
  | .reference => "variable"
  | .list => "list"
  | .map => "map"
  | .closure => "closure"
  | .encrypted => "encrypted"

def VariableKind.ofName? : String → Option VariableKind
  | "value" => some .value
  | "variable" => some .reference
  | "list" => some .list
  | "map" => some .map
  | "closure" => some .closure
  | "encrypted" => some .encrypted
  | _ => none

def Variable.kind : Variable → VariableKind
  | .value _ => .value
  | .reference _ => .reference
  | .list _ => .list
  | .map _ => .map
  | .closure _ => .closure
  | .encrypted _ _ => .encrypted

/-- **A named variable**, with the id of the assignment it comes from, if any. -/
structure VariableEntry where
  name : String
  id : Option AssignmentId
  content : Variable
deriving Inhabited, Repr

end DeployInventory
