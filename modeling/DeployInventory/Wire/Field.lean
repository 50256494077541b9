import DeployInventory.AssignmentId
import DeployInventory.Json.Basic
import DeployInventory.Variable.Basic
/-!
# Wire.Field — reading the fields of JSON objects

A structure is read from an object by the keys of its fields, or from an array by their positions. Fields that the
structure does not have do not count. `optional` takes `null` for an absent field; a field with a default may be
absent but not `null`. Where a field can be wrong in more ways than one, the fields are taken in the order in which they
stand, by `foldFields`, so that the first error is the one reported.
-/
namespace DeployInventory

/-- Why the wire form of a variable describes none. -/
inductive WireError where
  /-- The field that the kind selects is absent. -/
  | missingPayload (kind : VariableKind) (field : String)
  /-- An entry has no name. -/
  | missingName
  /-- The payload of an encrypted variable is not a text; the name is that of the wire object, if it has one. -/
  | encryptedNotText (name : String)
deriving DecidableEq, Repr

def WireError.message : WireError → String
  | .missingPayload kind field => "Variable of type '" ++ kind.name ++ "' is missing its '" ++ field ++ "' field."
  | .missingName => "Variable entry is missing its 'name' field."
  | .encryptedNotText name => "Encrypted variable '" ++ name ++ "' must carry its ciphertext as a string."

/-- Why a JSON document is not the form of a structure. -/
inductive DecodeError where
  /-- A value of another type, a required field that is absent, or an unknown kind. -/
  | shape
  /-- A text where an assignment id belongs. -/
  | id (cause : AssignmentId.ParseError)
  /-- A wire object that describes no variable. -/
  | wire (cause : WireError)
deriving DecidableEq, Repr

/-- The wording of a decoding error; a wrong shape has none of its own. -/
def DecodeError.message? : DecodeError → Option String
  | .shape => none
  | .id cause => some cause.message
  | .wire cause => some cause.message

/-- What reading gives: a value or the first error. -/
abbrev Decoded (α : Type) := Except DecodeError α

namespace Wire

def text : Json → Decoded String
  | .string s => .ok s
  | _ => .error .shape

/-- A text, or nothing for `null`. -/
def textOrNull : Json → Decoded (Option String)
  | .null => .ok none
  | j => (text j).map some

def flag : Json → Decoded Bool
  | .bool b => .ok b
  | _ => .error .shape

def int64 : Json → Decoded Int
  | .number (.integer n) => if -(twoTo 63 : Int) ≤ n ∧ n < twoTo 63 then .ok n else .error .shape
  | _ => .error .shape

/-- An array, item by item. -/
def list {α : Type} (read : Json → Decoded α) : Json → Decoded (List α)
  | .array items => items.mapM read
  | _ => .error .shape

/-- An object, field by field. -/
def map {α : Type} (read : Json → Decoded α) : Json → Decoded (List (String × α))
  | .object fields => fields.mapM fun e => (read e.2).map (e.1, ·)
  | _ => .error .shape

def id (j : Json) : Decoded AssignmentId := do
  match AssignmentId.parse (← text j) with
  | .ok i => .ok i
  | .error cause => .error (.id cause)

/-- The fields of a structure, its keys being declared in order. -/
def fields (declared : List String) : Json → Decoded (List (String × Json))
  | .object fs => .ok fs
  | .array items => if items.length ≤ declared.length then .ok (declared.zip items) else .error .shape
  | _ => .error .shape

/-- Takes the fields of a structure one by one, its keys being declared in order. Items beyond them are an error, after
all others. -/
def foldFields {σ : Type} (declared : List String) (take : σ → String → Json → Decoded σ) (start : σ) :
    Json → Decoded σ
  | .object fs => fs.foldlM (fun s e => take s e.1 e.2) start
  | .array items => do
    let s ← (declared.zip items).foldlM (fun s e => take s e.1 e.2) start
    if items.length ≤ declared.length then .ok s else .error .shape
  | _ => .error .shape

/-- A field that may be absent or `null`. -/
def optional {α : Type} (fs : List (String × Json)) (key : String) (read : Json → Decoded α) : Decoded (Option α) :=
  match NameMap.valueOf? key fs with
  | none => .ok none
  | some .null => .ok none
  | some j => (read j).map some

def present {α : Type} (fs : List (String × Json)) (key : String) (read : Json → Decoded α) : Decoded (Option α) :=
  match NameMap.valueOf? key fs with
  | none => .ok none
  | some j => (read j).map some

def orDefault {α : Type} (fs : List (String × Json)) (key : String) (read : Json → Decoded α) (default : α) :
    Decoded α :=
  (present fs key read).map (·.getD default)

/-- The value of a field that has to be there. -/
def required {α : Type} : Option α → Decoded α
  | some a => .ok a
  | none => .error .shape

end Wire

end DeployInventory
