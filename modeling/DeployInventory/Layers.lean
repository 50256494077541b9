import DeployInventory.Unmet
import DeployInventory.Variable.Basic
/-!
# Layers — scopes of variables stacked on each other

The topmost layer that defines a name decides it; within a layer the last entry with the name does. `materialize` lists
what all names come to, `dereference` follows references from name to name.
-/
namespace DeployInventory

/-- **The variables of one scope**, with a label that says where they come from. -/
structure Layer where
  origin : String
  entries : List VariableEntry
deriving Inhabited, Repr

/-- The definition of a name in a layer: the last entry that has it. -/
def Layer.find? (l : Layer) (name : String) : Option VariableEntry := l.entries.reverse.find? (·.name == name)

/-- A definition together with the layer that gave it. -/
structure ResolvedVariable where
  origin : String
  entry : VariableEntry
deriving Inhabited, Repr

/-- **A stack of layers**, the least specific first. -/
abbrev LayerStack := List Layer

/-- What is wrong with a reference. -/
inductive ReferenceError where
  /-- No layer defines the name that the second variable refers to. -/
  | undefined (name referencedBy : String)
  /-- The references lead back to a name: the names met, the repeated one last. -/
  | cycle (chain : List String)
deriving DecidableEq, Repr

def ReferenceError.message : ReferenceError → String
  | .undefined name referencedBy =>
    "Variable '" ++ referencedBy ++ "' references '" ++ name ++ "', which is not defined."
  | .cycle chain => "Circular variable reference: " ++ " -> ".intercalate chain ++ "."

namespace LayerStack

/-- The layers' labels, the least specific first. -/
def origins (s : LayerStack) : List String := s.map (·.origin)

/-- **The most specific definition of a name**, with its layer's label. -/
def find? (s : LayerStack) (name : String) : Option ResolvedVariable :=
  s.reverse.findSome? fun l => (l.find? name).map (⟨l.origin, ·⟩)

/-- The names that some layer defines, as often as they occur. -/
def definedNames (s : LayerStack) : List String := s.flatMap fun l => l.entries.map (·.name)

/-- All definitions, each with its layer's label, the least specific first. -/
def definitions (s : LayerStack) : List (String × ResolvedVariable) :=
  s.flatMap fun l => l.entries.map fun e => (e.name, ⟨l.origin, e⟩)

/-- **The view of the stack**: every defined name with its most specific definition. -/
def materialize (s : LayerStack) : NameMap ResolvedVariable := .ofList s.definitions

theorem mem_definedNames_of_find? {s : LayerStack} {name : String} {r : ResolvedVariable}
    (h : s.find? name = some r) : name ∈ s.definedNames := by
  simp only [find?, List.findSome?_eq_some_iff] at h
  obtain ⟨before, l, after, hs, hl, _⟩ := h
  simp only [Option.map_eq_some_iff, Layer.find?] at hl
  obtain ⟨e, he, _⟩ := hl
  have hmem := List.mem_of_find?_eq_some he
  have hname := List.find?_some he
  refine List.mem_flatMap.2 ⟨l, ?_, List.mem_map.2 ⟨e, by simpa using hmem, by simpa using hname⟩⟩
  have : l ∈ s.reverse := by simp [hs]
  simpa using this

/-- Follows references from a variable on; `last` is its name and `met` are the names met before it, the last first. -/
def follow (s : LayerStack) (last : String) (met : List String) (v : Variable) : Except ReferenceError Variable :=
  match v with
  | .reference target =>
    if hm : target ∈ last :: met then .error (.cycle ((last :: met).reverse ++ [target]))
    else match hn : s.find? target with
      | none => .error (.undefined target last)
      | some r =>
        have _fewer : (unmet s.definedNames (target :: last :: met)).length <
            (unmet s.definedNames (last :: met)).length := unmet_cons_lt (mem_definedNames_of_find? hn) hm
        follow s target (last :: met) r.entry.content
  | v => .ok v
termination_by (unmet s.definedNames (last :: met)).length

/-- **The variable that a name comes to, references followed**; nothing where no layer defines the name. -/
def dereference (s : LayerStack) (name : String) : Except ReferenceError (Option Variable) :=
  match s.find? name with
  | none => .ok none
  | some r => (follow s name [] r.entry.content).map some

end LayerStack

end DeployInventory
