import DeployInventory.NameMap
import DeployInventory.Number.Binary64
/-!
# Json — JSON documents

An object is the list of its fields in the order in which they are written. `Json.sorted` is the document with the
fields of every object in ascending order of their keys, one per key.
-/
namespace DeployInventory

/-- A JSON number: written without a fraction and an exponent it is an integer, else a finite double. -/
inductive JsonNumber where
  | integer (n : Int)
  | double (x : Binary64)
deriving DecidableEq, Repr

/-- A JSON document. -/
inductive Json where
  | null
  | bool (b : Bool)
  | number (n : JsonNumber)
  | string (s : String)
  | array (items : List Json)
  | object (fields : List (String × Json))
deriving Inhabited, Repr

namespace Json

def integer (n : Int) : Json := .number (.integer n)

/-- The document of a double; one that is not finite has none but `null`. -/
def ofBinary64 (x : Binary64) : Json := if x.isFinite then .number (.double x) else .null

def texts (l : List String) : Json := .array (l.map .string)

/-- The text, or `null` where there is none. -/
def textOrNull : Option String → Json
  | none => .null
  | some s => .string s

/-- The integer, or `null` where there is none. -/
def integerOrNull : Option Int → Json
  | none => .null
  | some n => .integer n

mutual

/-- **The document with the fields of every object ascending by key**, the last of several with one key. -/
def sorted : Json → Json
  | .array items => .array (sortedItems items)
  | .object fields => .object (NameMap.ofList (sortedFields fields)).entries
  | .null => .null
  | .bool b => .bool b
  | .number n => .number n
  | .string s => .string s

/-- The items of an array, each sorted. -/
def sortedItems : List Json → List Json
  | [] => []
  | j :: rest => sorted j :: sortedItems rest

/-- The fields of an object, each value sorted. -/
def sortedFields : List (String × Json) → List (String × Json)
  | [] => []
  | (key, j) :: rest => (key, sorted j) :: sortedFields rest

end

end Json

end DeployInventory
