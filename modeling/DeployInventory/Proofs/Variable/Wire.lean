import DeployInventory.Proofs.Variable.Fields
/-!
# Proofs.Variable.Wire — variables and their wire form

The flat object of a variable describes the variable (`toVariable_ofVariable`), so a variable, and an entry with its
name and id, is read from what is written of it. Nothing is lost in either stage, at whatever depth
(`wireForm_faithful`).
-/
namespace DeployInventory

namespace Variable

/-- **Induction on variables**: those in a list or in a map come before it. -/
@[elab_as_elim]
theorem induction {P : Variable → Prop} (value : ∀ document, P (.value document))
    (reference : ∀ name, P (.reference name)) (list : ∀ items, (∀ v ∈ items, P v) → P (.list items))
    (map : ∀ entries, (∀ e ∈ entries, P e.2) → P (.map entries)) (closure : ∀ source, P (.closure source))
    (encrypted : ∀ ciphertext key, P (.encrypted ciphertext key)) : ∀ v, P v
  | .value document => value document
  | .reference name => reference name
  | .list items => list items fun v _hv => induction value reference list map closure encrypted v
  | .map entries => map entries fun e _he => induction value reference list map closure encrypted e.2
  | .closure source => closure source
  | .encrypted ciphertext key => encrypted ciphertext key
termination_by v => sizeOf v
decreasing_by
  · have hv := List.sizeOf_lt_of_mem _hv
    simp only [Variable.list.sizeOf_spec]
    omega
  · have he := List.sizeOf_lt_of_mem _he
    cases e
    simp only [Variable.map.sizeOf_spec, Prod.mk.sizeOf_spec] at he ⊢
    omega

mutual

/-- **The variable with its documents and its maps in key order.** -/
def sorted : Variable → Variable
  | .value document => .value document.sorted
  | .reference name => .reference name
  | .list items => .list (sortedItems items)
  | .map entries => .map (NameMap.ofList (sortedEntries entries)).entries
  | .closure source => .closure source
  | .encrypted ciphertext key => .encrypted ciphertext key

def sortedItems : List Variable → List Variable
  | [] => []
  | v :: rest => sorted v :: sortedItems rest

def sortedEntries : List (String × Variable) → List (String × Variable)
  | [] => []
  | (key, v) :: rest => (key, sorted v) :: sortedEntries rest

end

theorem sortedItems_eq_map : ∀ l : List Variable, sortedItems l = l.map sorted
  | [] => rfl
  | v :: rest => by rw [sortedItems, sortedItems_eq_map rest, List.map_cons]

theorem sortedEntries_eq_map : ∀ l : List (String × Variable), sortedEntries l = l.map fun e => (e.1, sorted e.2)
  | [] => rfl
  | (key, v) :: rest => by rw [sortedEntries, sortedEntries_eq_map rest, List.map_cons]

end Variable

namespace VariableWire

theorem ofVariables_eq_map : ∀ l : List Variable, ofVariables l = l.map ofVariable
  | [] => rfl
  | v :: rest => by rw [ofVariables, ofVariables_eq_map rest, List.map_cons]

theorem ofEntries_eq_map : ∀ l : List (String × Variable), ofEntries l = l.map fun e => (e.1, ofVariable e.2)
  | [] => rfl
  | (key, v) :: rest => by rw [ofEntries, ofEntries_eq_map rest, List.map_cons]

theorem toVariables_ofVariables : ∀ {l : List Variable}, (∀ v ∈ l, (ofVariable v).toVariable = .ok v) →
    toVariables (ofVariables l) = .ok l
  | [], _ => by rw [ofVariables, toVariables]
  | v :: rest, h => by
    obtain ⟨hv, hrest⟩ := List.forall_mem_cons.1 h
    rw [ofVariables, toVariables, hv, toVariables_ofVariables hrest]
    rfl

theorem toEntries_ofEntries : ∀ {l : List (String × Variable)}, (∀ e ∈ l, (ofVariable e.2).toVariable = .ok e.2) →
    toEntries (ofEntries l) = .ok l
  | [], _ => by rw [ofEntries, toEntries]
  | (key, v) :: rest, h => by
    obtain ⟨hv, hrest⟩ := List.forall_mem_cons.1 h
    rw [ofEntries, toEntries, hv, toEntries_ofEntries hrest]
    rfl

/-- **The flat object of a variable describes the variable.** -/
theorem toVariable_ofVariable (v : Variable) : (ofVariable v).toVariable = .ok v := by
  induction v using Variable.induction with
  | value document => rw [ofVariable, blank, toVariable]
  | reference name => rw [ofVariable, blank, toVariable]
  | list items ih =>
    rw [ofVariable, blank, toVariable, toVariables_ofVariables ih]
    rfl
  | map entries ih =>
    rw [ofVariable, blank, toVariable, toEntries_ofEntries ih]
    rfl
  | closure source => rw [ofVariable, blank, toVariable]
  | encrypted ciphertext key => rw [ofVariable, blank, toVariable]

/-- The name and the id of a flat object do not count for its variable. -/
theorem toVariable_named (v : Variable) (name : Option String) (id : Option AssignmentId) :
    { ofVariable v with name, id }.toVariable = (ofVariable v).toVariable := by
  cases v <;> rw [ofVariable, blank, toVariable, toVariable]

theorem toEntry_ofEntry (e : VariableEntry) : (ofEntry e).toEntry = .ok e := by
  rw [toEntry, ofEntry]
  simp only [toVariable_named, toVariable_ofVariable]
  rfl

theorem sorted_ofVariable (v : Variable) : (ofVariable v).sorted = ofVariable v.sorted := by
  induction v using Variable.induction with
  | list items ih =>
    have hitems : (items.map ofVariable).map sorted = (items.map Variable.sorted).map ofVariable := by
      rw [List.map_map, List.map_map]
      exact List.map_congr_left ih
    rw [sorted_eq, Variable.sorted, Variable.sortedItems_eq_map, ofVariable, ofVariable, ofVariables_eq_map,
      ofVariables_eq_map, ← hitems]
    rfl
  | map entries ih =>
    have hentries : ((NameMap.ofList (entries.map fun e => (e.1, ofVariable e.2))).map sorted).entries =
        (NameMap.ofList (entries.map fun e => (e.1, e.2.sorted))).entries.map fun e => (e.1, ofVariable e.2) := by
      rw [NameMap.ofList_map, NameMap.ofList_map, NameMap.entries_map, NameMap.entries_map, NameMap.entries_map,
        List.map_map, List.map_map]
      exact List.map_congr_left fun e he => Prod.ext rfl (ih e (NameMap.mem_of_mem_ofList he))
    rw [sorted_eq, Variable.sorted, Variable.sortedEntries_eq_map, ofVariable, ofVariable, ofEntries_eq_map,
      ofEntries_eq_map, ← hentries]
    rfl
  | _ => rw [sorted_eq]; rfl

end VariableWire

/-! ## Round trips -/

open VariableWire (ofVariable ofEntry)
open Wire (RoundTrips)

namespace VariableEntry

/-- The entry with its variable in key order. -/
def sorted (e : VariableEntry) : VariableEntry := { e with content := e.content.sorted }

theorem sorted_ofEntry (e : VariableEntry) : (ofEntry e).sorted = ofEntry e.sorted := by
  have h := VariableWire.sorted_ofVariable e.content
  rw [VariableWire.sorted_eq] at h ⊢
  rw [ofEntry, ofEntry, sorted, ← h]

/-- **An entry is read as it was written**, on its own and within a record. -/
theorem roundTrips (inRecord : Bool) : RoundTrips toJson (read inRecord) fun e => e where
  read_write e := by
    rw [read, toJson, VariableWire.ofJson_toJson]
    exact congrArg DecodeError.ofWire (VariableWire.toEntry_ofEntry e)
  write_normal _ := rfl

/-- **With its document in key order an entry is read in key order.** -/
theorem roundTrips_sorted (inRecord : Bool) : RoundTrips (fun e => e.toJson.sorted) (read inRecord) sorted where
  read_write e := by
    rw [read, toJson, VariableWire.ofJson_toJson_sorted, sorted_ofEntry]
    exact congrArg DecodeError.ofWire (VariableWire.toEntry_ofEntry e.sorted)
  write_normal e := by rw [toJson, toJson, ← sorted_ofEntry, VariableWire.toJson_sorted]

end VariableEntry

namespace Variable

/-- **A variable is read as it was written.** -/
theorem roundTrips : RoundTrips toJson ofJson fun v => v where
  read_write v := by
    rw [ofJson, toJson, VariableWire.ofJson_toJson]
    exact congrArg DecodeError.ofWire (VariableWire.toVariable_ofVariable v)
  write_normal _ := rfl

/-- **With its document in key order a variable is read in key order.** -/
theorem roundTrips_sorted : RoundTrips (fun v => v.toJson.sorted) ofJson sorted where
  read_write v := by
    rw [ofJson, toJson, VariableWire.ofJson_toJson_sorted, VariableWire.sorted_ofVariable]
    exact congrArg DecodeError.ofWire (VariableWire.toVariable_ofVariable v.sorted)
  write_normal v := by rw [toJson, toJson, ← VariableWire.sorted_ofVariable, VariableWire.toJson_sorted]

/-- **The wire form loses nothing.** Variables and entries are read as they were written, and where the fields of all
objects are put in key order, they are read in key order. So no two are written alike, but for key order, and what has
been read and written again stays when that is repeated. -/
theorem wireForm_faithful :
    (∀ v : Variable, ofJson v.toJson = .ok v ∧ ofJson v.toJson.sorted = .ok v.sorted) ∧
    (∀ e : VariableEntry,
      VariableEntry.ofJson e.toJson = .ok e ∧ VariableEntry.ofJson e.toJson.sorted = .ok e.sorted) ∧
    (∀ v w : Variable, (v.toJson = w.toJson ↔ v = w) ∧ (v.toJson.sorted = w.toJson.sorted ↔ v.sorted = w.sorted)) ∧
    (∀ e f : VariableEntry, (e.toJson = f.toJson ↔ e = f) ∧ (e.toJson.sorted = f.toJson.sorted ↔ e.sorted = f.sorted)) ∧
    (∀ j k, (ofJson j).map toJson = .ok k → (ofJson k).map toJson = .ok k) ∧
    (∀ j k, (ofJson j).map (·.toJson.sorted) = .ok k → (ofJson k).map (·.toJson.sorted) = .ok k) ∧
    (∀ j k, (VariableEntry.ofJson j).map (·.toJson) = .ok k → (VariableEntry.ofJson k).map (·.toJson) = .ok k) ∧
    ∀ j k, (VariableEntry.ofJson j).map (·.toJson.sorted) = .ok k →
      (VariableEntry.ofJson k).map (·.toJson.sorted) = .ok k := by
  have hentry := VariableEntry.roundTrips false
  have hsorted := VariableEntry.roundTrips_sorted false
  refine ⟨fun v => ⟨roundTrips.read_write v, roundTrips_sorted.read_write v⟩,
    fun e => ⟨hentry.read_write e, hsorted.read_write e⟩,
    fun v w => ⟨roundTrips.write_eq_iff, roundTrips_sorted.write_eq_iff⟩,
    fun e f => ⟨hentry.write_eq_iff, hsorted.write_eq_iff⟩, ?_, ?_, ?_, ?_⟩
  · exact fun j k => roundTrips.rewritten
  · exact fun j k => roundTrips_sorted.rewritten
  · exact fun j k => hentry.rewritten
  · exact fun j k => hsorted.rewritten

/-- A null with a field that its kind does not select. -/
def wordyNull : Json := .object [("list", .array []), ("value", .null), ("type", .string "value")]

theorem wordyNull_rewritten : wordyNull ≠ toJson (.value .null) ∧
    (ofJson wordyNull).map toJson = .ok (toJson (.value .null)) ∧
    (ofJson (toJson (.value .null))).map toJson = .ok (toJson (.value .null)) := by
  have hnull : toJson (.value .null) = .object [("type", .string "value"), ("value", .null)] :=
    VariableWire.toJson_eq _
  have hread : ofJson wordyNull = .ok (.value .null) := by cbv
  have hwritten : (ofJson wordyNull).map toJson = .ok (toJson (.value .null)) := by
    rw [hread]
    rfl
  obtain ⟨-, -, -, -, hrewritten, -⟩ := wireForm_faithful
  exact ⟨by simp [hnull, wordyNull], hwritten, hrewritten _ _ hwritten⟩

end Variable

end DeployInventory
