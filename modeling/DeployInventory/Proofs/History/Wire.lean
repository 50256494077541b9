import DeployInventory.History.Wire
import DeployInventory.Proofs.History.Run
import DeployInventory.Proofs.Inventory.Consistent
import DeployInventory.Proofs.Record.Wire
/-!
# Proofs.History.Wire — histories are loaded as they were saved

Operations leave no record that they did not bring (`Holds.performAll`). A history whose records are read as they were
written is itself loaded as it was saved (`ofJson_layout`), so whoever goes on from the loaded one goes on from the
other (`loads_as_saved`).
-/
namespace DeployInventory

open Wire

/-! ## The records of a history -/

namespace History

variable {P : Record → Prop} {h h' : History} {o : Operation} {ops : List Operation} {d? : Option Commit}

/-- The records that an operation brings. -/
def Operation.records : Operation → List Record
  | .commit _ _ records => records
  | .branchFrom _ _ => []

/-- **Whether a property holds of every record of a history.** -/
def Holds (P : Record → Prop) (h : History) : Prop := h.commits.All fun _ c => ∀ r ∈ c.records, P r

theorem Outcome.holds (ho : Outcome h o d? h') (hh : h.Holds P) (hP : ∀ r ∈ o.records, P r) : h'.Holds P := by
  cases ho with
  | unchanged => exact hh
  | branched _ _ => exact hh
  | committed _ => exact hh.insert hP

/-- **What holds of the records of operations holds of every record that they leave.** -/
theorem Holds.performAll : ∀ {ops : List Operation} {h : History}, h.Holds P → (∀ o ∈ ops, ∀ r ∈ o.records, P r) →
    (h.performAll ops).Holds P
  | [], _, hh, _ => hh
  | o :: ops, h, hh, hP => by
    obtain ⟨ho, hops⟩ := List.forall_mem_cons.1 hP
    have hstep : (h.perform o).Holds P := (outcome_perform h o).holds hh ho
    have hrest : ((h.perform o).performAll ops).Holds P := Holds.performAll hstep hops
    exact hrest

theorem holds_initial : initial.Holds P := fun _ _ hc => by cases hc

theorem holds_run (hP : ∀ o ∈ ops, ∀ r ∈ o.records, P r) : (run ops).Holds P := holds_initial.performAll hP

end History

/-! ## Reading -/

theorem mapM_map_eq_ok {ε α β γ : Type} {f : α → β} {g : β → Except ε γ} {h : α → γ} {l : List α}
    (hl : ∀ a ∈ l, g (f a) = .ok (h a)) : (l.map f).mapM g = .ok (l.map h) := by
  rw [mapM_eq_ok_iff, List.forall₂_map_left_iff, List.forall₂_map_right_iff, List.forall₂_same]
  exact hl

/-- **A map is read from its document**, laid out, each value as it is read in the layout. -/
theorem Wire.map_layout {α : Type} {form : Json → Json} (hform : Json.Layout form) {write : α → Json}
    {read : Json → Decoded α} {normal : α → α} {m : NameMap α}
    (hm : m.All fun _ a => read (form (write a)) = .ok (normal a)) :
    map read (form (.object (m.map write).entries)) = .ok (m.map normal).entries := by
  rw [hform.map, map, NameMap.entries_map, NameMap.entries_map, NameMap.entries_map, List.map_map]
  refine mapM_map_eq_ok fun e he => ?_
  exact map_eq_ok_iff.2 ⟨normal e.2, hm e.1 e.2 (NameMap.find?_eq_some_iff.2 he), rfl⟩

section Layout

variable {form : Json → Json} {normal : VariableEntry → VariableEntry} {fs : List (String × Json)}

namespace Commit

/-- The slots of a draft, in the order of the keys. -/
def Draft.slots : List (Slot Draft) :=
  [⟨"id", fun j => (text j).map some, (·.id), fun d a => { d with id := a }⟩,
    ⟨"parent", textOrNull, (·.parent), fun d a => { d with parent := a }⟩,
    ⟨"message", fun j => (text j).map some, (·.message), fun d a => { d with message := a }⟩,
    ⟨"records", fun j => (list Record.ofJson j).map some, (·.records), fun d a => { d with records := a }⟩]

theorem Draft.fills : Fills takeField slots where
  distinct := by simp [slots]
  take_slot := by
    simp only [slots, List.forall_mem_cons, List.not_mem_nil, false_imp_iff, takeField, implies_true, and_true]
    refine ⟨fun d j => ?id, fun d j => ?parent, fun d j => ?message, fun d j => ?records⟩
    case parent => cases textOrNull j <;> rfl
    case records => cases list Record.ofJson j <;> rfl
    all_goals cases text j <;> rfl
  take_other key hkey d j := by
    simp only [slots, List.map_cons, List.map_nil, List.mem_cons, List.not_mem_nil, or_false, not_or] at hkey
    simp [takeField, hkey]
  get_set := by simp [slots]
  get_set_of_ne := by simp [slots]

theorem Draft.eq_of_slots {d last : Draft} (h : ∀ s ∈ slots, s.get d = s.get last) : d = last := by
  simp only [slots, List.forall_mem_cons, List.not_mem_nil, false_imp_iff, implies_true, and_true] at h
  cases d
  cases last
  simp_all only

/-- The commit with the entries of its records changed. -/
def mapEntries (f : VariableEntry → VariableEntry) (c : Commit) : Commit :=
  { c with records := c.records.map (·.mapEntry f) }

/-- **A commit is read from its document**, laid out, with the entries of its records as they are read there. -/
theorem ofJson_layout (hform : Json.Layout form)
    (hread : ∀ e : VariableEntry, VariableEntry.read true (form e.toJson) = .ok (normal e)) {c : Commit}
    (hc : ∀ r ∈ c.records, r.InRange) : ofJson (form c.toJson) = .ok (c.mapEntries normal) := by
  obtain ⟨fs, hfs, hnodup, hkey⟩ := hform.object [("id", .string c.id), ("parent", .textOrNull c.parent),
    ("message", .string c.message), ("records", Record.streamToJson c.records)] (by simp)
  have hid : NameMap.valueOf? "id" fs = some (form (.string c.id)) := hkey "id"
  have hparent : NameMap.valueOf? "parent" fs = some (form (.textOrNull c.parent)) := hkey "parent"
  have hmessage : NameMap.valueOf? "message" fs = some (form (.string c.message)) := hkey "message"
  have hrecords : NameMap.valueOf? "records" fs = some (form (Record.streamToJson c.records)) := hkey "records"
  have hlist : list Record.ofJson (form (Record.streamToJson c.records)) = .ok (c.records.map (·.mapEntry normal)) := by
    rw [Record.streamToJson, hform.array, List.map_map]
    exact mapM_map_eq_ok fun r hr => Record.ofJson_layout hform hread (hc r hr)
  have hslots : ∀ s ∈ Draft.slots, Taken fs s.key s.read (s.get {}) (s.get
      ⟨some c.id, c.parent, some c.message, some (c.records.map (·.mapEntry normal))⟩) := by
    simp only [Draft.slots, List.forall_mem_cons, List.not_mem_nil, false_imp_iff, implies_true, and_true]
    refine ⟨?id, ?parent, ?message, ?records⟩
    case id =>
      rw [Taken, hid, hform.string]
      rfl
    case parent =>
      rw [Taken, hparent, hform.textOrNull]
      exact textOrNull_textOrNull c.parent
    case message =>
      rw [Taken, hmessage, hform.string]
      rfl
    case records =>
      rw [Taken, hrecords]
      simp only [hlist, Except.map]
  obtain ⟨d, hd, hlast⟩ := Draft.fills.foldlM hnodup hslots
  rw [toJson, hfs, ofJson, foldFields, hd, Draft.eq_of_slots hlast]
  rfl

end Commit

theorem Branch.ofJson_layout (hform : Json.Layout form) (b : Branch) : ofJson (form b.toJson) = .ok b := by
  obtain ⟨fs, hfs, -, hkey⟩ := hform.object [("name", .string b.name), ("head", .textOrNull b.head)] (by simp)
  have hhead : optional fs "head" text = .ok b.head :=
    optional_text ((hkey "head").trans (congrArg some (hform.textOrNull _)))
  have hname : present fs "name" text = .ok (some b.name) :=
    present_eq_ok ((hkey "name").trans (congrArg some (hform.string _))) rfl
  rw [toJson, hfs]
  simp only [ofJson, bind, Except.bind, hhead, hname]
  rfl

namespace History

/-- The slots of a draft, in the order of the keys. -/
def Draft.slots : List (Slot Draft) :=
  [⟨"commits", fun j => (map Commit.ofJson j).map some, (·.commits), fun d a => { d with commits := a }⟩,
    ⟨"branches", fun j => (map Branch.ofJson j).map some, (·.branches), fun d a => { d with branches := a }⟩]

theorem Draft.fills : Fills takeField slots where
  distinct := by simp [slots]
  take_slot := by
    simp only [slots, List.forall_mem_cons, List.not_mem_nil, false_imp_iff, takeField, implies_true, and_true]
    refine ⟨fun d j => ?commits, fun d j => ?branches⟩
    case commits => cases map Commit.ofJson j <;> rfl
    case branches => cases map Branch.ofJson j <;> rfl
  take_other key hkey d j := by
    simp only [slots, List.map_cons, List.map_nil, List.mem_cons, List.not_mem_nil, or_false, not_or] at hkey
    simp [takeField, hkey]
  get_set := by simp [slots]
  get_set_of_ne := by simp [slots]

theorem Draft.eq_of_slots {d last : Draft} (h : ∀ s ∈ slots, s.get d = s.get last) : d = last := by
  simp only [slots, List.forall_mem_cons, List.not_mem_nil, false_imp_iff, implies_true, and_true] at h
  cases d
  cases last
  simp_all only

/-- The history with the entries of its records changed. -/
def mapEntries (f : VariableEntry → VariableEntry) (h : History) : History :=
  { h with commits := h.commits.map (·.mapEntries f) }

/-- **A history is read from its document**, laid out, with the entries of its records as they are read there. -/
theorem ofJson_layout (hform : Json.Layout form)
    (hread : ∀ e : VariableEntry, VariableEntry.read true (form e.toJson) = .ok (normal e)) {h : History}
    (hh : h.Holds Record.InRange) : ofJson (form h.toJson) = .ok (h.mapEntries normal) := by
  obtain ⟨fs, hfs, hnodup, hkey⟩ := hform.object [("commits", .object (h.commits.map (·.toJson)).entries),
    ("branches", .object (h.branches.map (·.toJson)).entries)] (by simp)
  have hcommits : NameMap.valueOf? "commits" fs = some (form (.object (h.commits.map (·.toJson)).entries)) :=
    hkey "commits"
  have hbranches : NameMap.valueOf? "branches" fs = some (form (.object (h.branches.map (·.toJson)).entries)) :=
    hkey "branches"
  have hslots : ∀ s ∈ Draft.slots, Taken fs s.key s.read (s.get {}) (s.get
      ⟨some (h.commits.map (·.mapEntries normal)).entries, some (h.branches.map fun b => b).entries⟩) := by
    simp only [Draft.slots, List.forall_mem_cons, List.not_mem_nil, false_imp_iff, implies_true, and_true]
    refine ⟨?commits, ?branches⟩
    case commits =>
      rw [Taken, hcommits]
      simp only [map_layout hform fun _ c hc => Commit.ofJson_layout hform hread (hh _ c hc), Except.map]
    case branches =>
      rw [Taken, hbranches]
      simp only [map_layout hform fun _ b _ => Branch.ofJson_layout hform b, Except.map]
  obtain ⟨d, hd, hlast⟩ := Draft.fills.foldlM hnodup hslots
  rw [toJson, hfs, ofJson, foldFields, hd, Draft.eq_of_slots hlast]
  simp only [bind, Except.bind, required, NameMap.ofList_entries, NameMap.map_id']
  rfl

theorem mapEntries_eq_self {f : VariableEntry → VariableEntry} {h : History} (hh : h.Holds fun r => r.mapEntry f = r) :
    h.mapEntries f = h := by
  have hcommits : h.commits.map (·.mapEntries f) = h.commits := by
    refine NameMap.ext_find? fun i => ?_
    rw [NameMap.find?_map]
    cases hc : h.commits.find? i with
    | none => rfl
    | some c =>
      have hrecords : c.records.map (·.mapEntry f) = c.records :=
        (List.map_congr_left (hh i c hc)).trans (List.map_id' _)
      rw [Option.map_some, Commit.mapEntries, hrecords]
  rw [mapEntries, hcommits]

end History

end Layout

/-! ## Saving and loading -/

namespace History

variable {h : History} {o : Operation} {ops : List Operation}

/-- **The history with the documents and the maps of its records in key order.** -/
def sorted (h : History) : History := h.mapEntries VariableEntry.sorted

theorem ofJson_toJson (hh : h.Holds Record.InRange) : ofJson h.toJson = .ok h := by
  have hload := ofJson_layout Json.layout_written (VariableEntry.roundTrips true).read_write hh
  rwa [mapEntries_eq_self fun _ _ _ r _ => r.mapEntry_id] at hload

theorem ofJson_toJson_sorted (hh : h.Holds Record.InRange) : ofJson h.toJson.sorted = .ok h.sorted :=
  ofJson_layout Json.layout_sorted (VariableEntry.roundTrips_sorted true).read_write hh

theorem foldlM_reload : ∀ {ops : List Operation} {h : History}, h.Holds Record.InRange →
    (∀ o ∈ ops, ∀ r ∈ o.records, r.InRange) →
    ops.foldlM (fun h o => ofJson (h.perform o).toJson) h = .ok (h.performAll ops)
  | [], _, _, _ => rfl
  | o :: ops, h, hh, hops => by
    obtain ⟨ho, hops⟩ := List.forall_mem_cons.1 hops
    have hstep : (h.perform o).Holds Record.InRange := (outcome_perform h o).holds hh ho
    rw [List.foldlM_cons, ofJson_toJson hstep]
    exact foldlM_reload hstep hops

/-- **Saving and loading loses nothing.** A record is read as it was written, and with fields in key order it is read
in key order. The history that operations leave is loaded as it was saved, in either order where the records keep to key
order. So the loaded one has the same logs, records and inventories, and operations go on from it as from the other,
with the same commits under the same ids; they could as well save and load the history after each of them. -/
theorem loads_as_saved :
    (∀ r : Record, r.InRange → Record.ofJson r.toJson = .ok r ∧ Record.ofJson r.toJson.sorted = .ok r.sorted) ∧
    ∀ ops : List Operation, (∀ o ∈ ops, ∀ r ∈ o.records, r.InRange) →
      ofJson (run ops).toJson.sorted = .ok (run ops).sorted ∧
      ((∀ o ∈ ops, ∀ r ∈ o.records, r.sorted = r) → (run ops).sorted = run ops) ∧
      ops.foldlM (fun h o => ofJson (h.perform o).toJson) initial = .ok (run ops) ∧
      ∃ loaded, ofJson (run ops).toJson = .ok loaded ∧
        loaded.commits = (run ops).commits ∧ loaded.branches = (run ops).branches ∧
        (∀ branch, loaded.log branch = (run ops).log branch ∧ loaded.records branch = (run ops).records branch ∧
          loaded.snapshot branch = (run ops).snapshot branch) ∧
        ∀ more, loaded.stores more = (run ops).stores more ∧ loaded.performAll more = run (ops ++ more) := by
  refine ⟨fun r hr => ⟨?_, ?_⟩, fun ops hops => ⟨?_, fun hsorted => ?_, ?_, run ops, ?_, rfl, rfl, ?_, ?_⟩⟩
  · have hread := Record.ofJson_layout Json.layout_written (VariableEntry.roundTrips true).read_write hr
    rwa [Record.mapEntry_id] at hread
  · exact Record.ofJson_layout Json.layout_sorted (VariableEntry.roundTrips_sorted true).read_write hr
  · exact ofJson_toJson_sorted (holds_run hops)
  · exact mapEntries_eq_self (holds_run hsorted)
  · exact foldlM_reload holds_initial hops
  · exact ofJson_toJson (holds_run hops)
  · exact fun _ => ⟨rfl, rfl, rfl⟩
  · exact fun _ => ⟨rfl, performAll_append.symm⟩

def shopProject : Record := .project { name := "shop", jobOrder := some (-3), hostGroups := ["web"] }

/-- A map with a null and a sealed entry, under an id of two numbers. -/
def shopSecrets : Record :=
  .assignment {
    id := ⟨3, [1]⟩
    entry := ⟨"secrets", some ⟨3, [1]⟩, .map [("key", .encrypted "c1" (some "ops")), ("none", .value .null)]⟩
    project := some "shop" }

/-- The records on the default branch, and another branch from there. -/
def shopOperations : List Operation :=
  [.commit defaultBranch "first" [shopProject, shopSecrets], .branchFrom "feature" defaultBranch]

theorem inRange_shopOperations : ∀ o ∈ shopOperations, ∀ r ∈ o.records, r.InRange := by
  simp [shopOperations, Operation.records, shopProject, shopSecrets, Record.InRange, FitsInt64, twoTo]

theorem sorted_shopOperations : ∀ o ∈ shopOperations, ∀ r ∈ o.records, r.sorted = r := by
  have hproject : shopProject.sorted = shopProject := rfl
  have hsecrets : shopSecrets.sorted = shopSecrets := by
    simp only [shopSecrets, Record.sorted, Record.mapEntry, VariableEntry.sorted, Variable.sorted,
      Variable.sortedEntries, Json.sorted]
    rw [NameMap.entries_ofList_of_ascending (by decide)]
  simp [shopOperations, Operation.records, hproject, hsecrets]

theorem shop_loads : (∀ o ∈ shopOperations, ∀ r ∈ o.records, r.InRange) ∧
    (∀ o ∈ shopOperations, ∀ r ∈ o.records, r.sorted = r) ∧
    Record.ofJson shopProject.toJson = .ok shopProject ∧ Record.ofJson shopSecrets.toJson = .ok shopSecrets ∧
    ofJson (run shopOperations).toJson.sorted = .ok (run shopOperations).sorted ∧
    (run shopOperations).sorted = run shopOperations := by
  have hproject : shopProject.InRange := inRange_shopOperations _ List.mem_cons_self _ List.mem_cons_self
  obtain ⟨hload, hsorted, -, -⟩ := loads_as_saved.2 shopOperations inRange_shopOperations
  exact ⟨inRange_shopOperations, sorted_shopOperations, (loads_as_saved.1 shopProject hproject).1,
    (loads_as_saved.1 shopSecrets trivial).1, hload, hsorted sorted_shopOperations⟩

end History

end DeployInventory
