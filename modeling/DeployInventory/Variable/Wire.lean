import DeployInventory.Wire.Field
/-!
# Variable.Wire — the flat form in which variables travel

Every variable travels as one flat object: `type` names its kind and selects the field with the payload. Reading has
two stages: `VariableWire.ofJson` checks the shape of every field, selected or not, at every depth;
`VariableWire.toVariable` then takes the selected ones.
-/
namespace DeployInventory

/-- **The flat object of a variable.** Fields that the kind does not select may be there; they do not count. -/
structure VariableWire where
  name : Option String
  id : Option AssignmentId
  kind : VariableKind
  value : Option Json
  reference : Option String
  list : Option (List VariableWire)
  map : Option (List (String × VariableWire))
  closure : Option String
  option : Option String
deriving Inhabited

namespace VariableWire

def blank (kind : VariableKind) : VariableWire := ⟨none, none, kind, none, none, none, none, none, none⟩

/-- The keys of the fields in the order in which they are written. -/
def keys : List String := ["name", "id", "type", "value", "variable", "list", "map", "closure", "option"]

/-- The kind of a variable: its name, or an object with the name as its only key and nothing under it. Within a record
an empty object is nothing too. -/
def kindOf (inRecord : Bool) : Json → Decoded VariableKind
  | .string s => Wire.required (VariableKind.ofName? s)
  | .object [(s, .null)] => Wire.required (VariableKind.ofName? s)
  | .object [(s, .object [])] => if inRecord then Wire.required (VariableKind.ofName? s) else .error .shape
  | _ => .error .shape

/-- An object in the course of reading: the kind may still be missing. -/
structure Draft where
  kind : Option VariableKind
  wire : VariableWire

def Draft.empty : Draft := ⟨none, blank .value⟩

def Draft.finish (d : Draft) : Decoded VariableWire := do
  return { d.wire with kind := ← Wire.required d.kind }

mutual

/-- **Reads the flat object of a variable**, its fields in the order in which they stand. -/
def ofJson (inRecord : Bool) : Json → Decoded VariableWire
  | .object fields => do (← takeFields inRecord .empty fields).finish
  | .array items => do (← takeItems inRecord .empty keys items).finish
  | _ => .error .shape

def takeFields (inRecord : Bool) (d : Draft) : List (String × Json) → Decoded Draft
  | [] => .ok d
  | (key, j) :: rest => do takeFields inRecord (← takeField inRecord d key j) rest

def takeItems (inRecord : Bool) (d : Draft) : List String → List Json → Decoded Draft
  | _, [] => .ok d
  | [], _ :: _ => .error .shape
  | key :: keys, j :: rest => do takeItems inRecord (← takeField inRecord d key j) keys rest

def takeField (inRecord : Bool) (d : Draft) (key : String) (j : Json) : Decoded Draft :=
  match key with
  | "name" => do return { d with wire := { d.wire with name := ← Wire.textOrNull j } }
  | "id" => match j with
    | .null => .ok { d with wire := { d.wire with id := none } }
    | j => do return { d with wire := { d.wire with id := some (← Wire.id j) } }
  | "type" => do return { d with kind := some (← kindOf inRecord j) }
  | "value" => .ok { d with wire := { d.wire with value := some j } }
  | "variable" => do return { d with wire := { d.wire with reference := ← Wire.textOrNull j } }
  | "list" => match j with
    | .null => .ok { d with wire := { d.wire with list := none } }
    | .array items => do return { d with wire := { d.wire with list := some (← listOf inRecord items) } }
    | _ => .error .shape
  | "map" => match j with
    | .null => .ok { d with wire := { d.wire with map := none } }
    | .object fields => do return { d with wire := { d.wire with map := some (← entriesOf inRecord fields) } }
    | _ => .error .shape
  | "closure" => do return { d with wire := { d.wire with closure := ← Wire.textOrNull j } }
  | "option" => do return { d with wire := { d.wire with option := ← Wire.textOrNull j } }
  | _ => .ok d

def listOf (inRecord : Bool) : List Json → Decoded (List VariableWire)
  | [] => .ok []
  | j :: rest => do return (← ofJson inRecord j) :: (← listOf inRecord rest)

def entriesOf (inRecord : Bool) : List (String × Json) → Decoded (List (String × VariableWire))
  | [] => .ok []
  | (key, j) :: rest => do return (key, ← ofJson inRecord j) :: (← entriesOf inRecord rest)

end

mutual

/-- **The variable that a flat object describes.** -/
def toVariable (w : VariableWire) : Except WireError Variable :=
  match w with
  | ⟨_, _, .value, some document, _, _, _, _, _⟩ => .ok (.value document)
  | ⟨_, _, .reference, _, some name, _, _, _, _⟩ => .ok (.reference name)
  | ⟨_, _, .list, _, _, some items, _, _, _⟩ => (toVariables items).map .list
  | ⟨_, _, .map, _, _, _, some entries, _, _⟩ => (toEntries entries).map .map
  | ⟨_, _, .closure, _, _, _, _, some source, _⟩ => .ok (.closure source)
  | ⟨_, _, .encrypted, some (.string ciphertext), _, _, _, _, key⟩ => .ok (.encrypted ciphertext key)
  | ⟨name, _, .encrypted, some _, _, _, _, _, _⟩ => .error (.encryptedNotText (name.getD ""))
  | ⟨_, _, .value, none, _, _, _, _, _⟩ => .error (.missingPayload .value "value")
  | ⟨_, _, .reference, _, none, _, _, _, _⟩ => .error (.missingPayload .reference "variable")
  | ⟨_, _, .list, _, _, none, _, _, _⟩ => .error (.missingPayload .list "list")
  | ⟨_, _, .map, _, _, _, none, _, _⟩ => .error (.missingPayload .map "map")
  | ⟨_, _, .closure, _, _, _, _, none, _⟩ => .error (.missingPayload .closure "closure")
  | ⟨_, _, .encrypted, none, _, _, _, _, _⟩ => .error (.missingPayload .encrypted "value")
termination_by sizeOf w

/-- The variables of a list, up to the first that is none. -/
def toVariables (l : List VariableWire) : Except WireError (List Variable) :=
  match l with
  | [] => .ok []
  | w :: rest => do return (← toVariable w) :: (← toVariables rest)
termination_by sizeOf l

/-- The entries of a map, up to the first that describes no variable. -/
def toEntries (l : List (String × VariableWire)) : Except WireError (List (String × Variable)) :=
  match l with
  | [] => .ok []
  | (key, w) :: rest => do return (key, ← toVariable w) :: (← toEntries rest)
termination_by sizeOf l

end

mutual

def ofVariable : Variable → VariableWire
  | .value document => { blank .value with value := some document }
  | .reference name => { blank .reference with reference := some name }
  | .list items => { blank .list with list := some (ofVariables items) }
  | .map entries => { blank .map with map := some (ofEntries entries) }
  | .closure source => { blank .closure with closure := some source }
  | .encrypted ciphertext key => { blank .encrypted with value := some (.string ciphertext), option := key }

def ofVariables : List Variable → List VariableWire
  | [] => []
  | v :: rest => ofVariable v :: ofVariables rest

def ofEntries : List (String × Variable) → List (String × VariableWire)
  | [] => []
  | (key, v) :: rest => (key, ofVariable v) :: ofEntries rest

end

/-- The flat object of an entry: that of its variable, with the name and the id. -/
def ofEntry (e : VariableEntry) : VariableWire := { ofVariable e.content with name := some e.name, id := e.id }

/-- The entry that a flat object describes; it has to have a name. -/
def toEntry (w : VariableWire) : Except WireError VariableEntry :=
  match w.name with
  | none => .error .missingName
  | some name => do return { name, id := w.id, content := ← w.toVariable }

/-- A field that is written only where it is set. -/
def writtenField {α : Type} (key : String) (write : α → Json) : Option α → List (String × Json)
  | none => []
  | some a => [(key, write a)]

mutual

/-- **Writes the flat object**: the fields that are set, in their order. -/
def toJson (w : VariableWire) : Json :=
  match w with
  | ⟨name, id, kind, value, reference, list, map, closure, option⟩ =>
    .object <|
      writtenField "name" .string name ++
      writtenField "id" (fun i => .string i.text) id ++
      [("type", .string kind.name)] ++
      writtenField "value" (fun j => j) value ++
      writtenField "variable" .string reference ++
      (match list with
        | none => []
        | some items => [("list", .array (listToJson items))]) ++
      (match map with
        | none => []
        | some entries => [("map", .object (entriesToJson entries))]) ++
      writtenField "closure" .string closure ++
      writtenField "option" .string option
termination_by sizeOf w

def listToJson (l : List VariableWire) : List Json :=
  match l with
  | [] => []
  | w :: rest => toJson w :: listToJson rest
termination_by sizeOf l

def entriesToJson (l : List (String × VariableWire)) : List (String × Json) :=
  match l with
  | [] => []
  | (key, w) :: rest => (key, toJson w) :: entriesToJson rest
termination_by sizeOf l

end

end VariableWire

def Variable.toJson (v : Variable) : Json := (VariableWire.ofVariable v).toJson

def VariableEntry.toJson (e : VariableEntry) : Json := (VariableWire.ofEntry e).toJson

/-- An error of the second stage among those of reading. -/
def DecodeError.ofWire {α : Type} : Except WireError α → Decoded α
  | .ok a => .ok a
  | .error cause => .error (.wire cause)

/-- **Reads a variable.** -/
def Variable.ofJson (j : Json) : Decoded Variable := do
  DecodeError.ofWire (← VariableWire.ofJson false j).toVariable

namespace VariableEntry

/-- Reads a named entry, on its own or within a record. -/
def read (inRecord : Bool) (j : Json) : Decoded VariableEntry := do
  DecodeError.ofWire (← VariableWire.ofJson inRecord j).toEntry

/-- **Reads a named entry.** -/
def ofJson (j : Json) : Decoded VariableEntry := read false j

end VariableEntry

end DeployInventory
