import DeployInventory.Proofs.AssignmentId.Text
import DeployInventory.Proofs.Json.Sorted
import DeployInventory.Proofs.Wire.Field
import DeployInventory.Variable.Wire
/-!
# Proofs.Variable.Fields — flat objects and their fields

A flat object is read from its fields in whatever order they stand, as long as no key stands twice (`Shows.ofJson`). So
what is written of a flat object reads as the object (`ofJson_toJson`), and with the fields of all documents in key
order it reads as the object in key order (`ofJson_toJson_sorted`).
-/
namespace DeployInventory

open Wire (Taken orNull Slot Fills)

theorem VariableKind.ofName?_name (k : VariableKind) : ofName? k.name = some k := by
  cases k <;> rfl

theorem Wire.id_text (i : AssignmentId) : Wire.id (.string i.text) = .ok i := by
  simp only [Wire.id, Wire.text, bind, Except.bind, AssignmentId.parse_text]

namespace VariableWire

variable {r : Bool} {w : VariableWire} {fs : List (String × Json)}

/-- **Induction on flat objects**: those in the list and in the map of one come before it. -/
@[elab_as_elim]
theorem induction {P : VariableWire → Prop}
    (step : ∀ w : VariableWire, (∀ items, w.list = some items → ∀ x ∈ items, P x) →
      (∀ entries, w.map = some entries → ∀ e ∈ entries, P e.2) → P w) : ∀ w, P w
  | ⟨_, _, _, _, _, _, _, _, _⟩ =>
    step _ (fun _ _hitems x _hx => induction step x) (fun _ _hentries e _he => induction step e.2)
termination_by w => sizeOf w
decreasing_by
  · cases _hitems
    have hx := List.sizeOf_lt_of_mem _hx
    simp only [mk.sizeOf_spec, Option.some.sizeOf_spec]
    omega
  · cases _hentries
    have he := List.sizeOf_lt_of_mem _he
    cases e
    simp only [mk.sizeOf_spec, Option.some.sizeOf_spec, Prod.mk.sizeOf_spec] at he ⊢
    omega

/-! ## Reading -/

/-- The items of a list. -/
def itemsOf (inRecord : Bool) : Json → Decoded (List VariableWire)
  | .array items => listOf inRecord items
  | _ => .error .shape

/-- The entries of a map. -/
def namedOf (inRecord : Bool) : Json → Decoded (List (String × VariableWire))
  | .object fields => entriesOf inRecord fields
  | _ => .error .shape

/-- The slots of a draft, in the order of the keys. -/
def Draft.slots (inRecord : Bool) : List (Slot Draft) :=
  [⟨"name", orNull Wire.text, (·.wire.name), fun d a => { d with wire := { d.wire with name := a } }⟩,
    ⟨"id", orNull Wire.id, (·.wire.id), fun d a => { d with wire := { d.wire with id := a } }⟩,
    ⟨"type", fun j => (kindOf inRecord j).map some, (·.kind), fun d a => { d with kind := a }⟩,
    ⟨"value", fun j => .ok (some j), (·.wire.value), fun d a => { d with wire := { d.wire with value := a } }⟩,
    ⟨"variable", orNull Wire.text, (·.wire.reference), fun d a => { d with wire := { d.wire with reference := a } }⟩,
    ⟨"list", orNull (itemsOf inRecord), (·.wire.list), fun d a => { d with wire := { d.wire with list := a } }⟩,
    ⟨"map", orNull (namedOf inRecord), (·.wire.map), fun d a => { d with wire := { d.wire with map := a } }⟩,
    ⟨"closure", orNull Wire.text, (·.wire.closure), fun d a => { d with wire := { d.wire with closure := a } }⟩,
    ⟨"option", orNull Wire.text, (·.wire.option), fun d a => { d with wire := { d.wire with option := a } }⟩]

theorem takeField_id (d : Draft) (j : Json) :
    takeField r d "id" j = (orNull Wire.id j).map fun a => { d with wire := { d.wire with id := a } } := by
  unfold takeField orNull
  cases j with
  | null => rfl
  | _ =>
    simp only
    cases Wire.id _ <;> rfl

theorem takeField_list (d : Draft) (j : Json) :
    takeField r d "list" j = (orNull (itemsOf r) j).map fun a => { d with wire := { d.wire with list := a } } := by
  unfold takeField orNull
  cases j with
  | array items =>
    simp only [itemsOf]
    cases listOf r items <;> rfl
  | _ => rfl

theorem takeField_map (d : Draft) (j : Json) :
    takeField r d "map" j = (orNull (namedOf r) j).map fun a => { d with wire := { d.wire with map := a } } := by
  unfold takeField orNull
  cases j with
  | object fields =>
    simp only [namedOf]
    cases entriesOf r fields <;> rfl
  | _ => rfl

theorem Draft.fills : Fills (takeField r) (slots r) where
  distinct := by simp [slots]
  take_slot := by
    have htext : ∀ j, Wire.textOrNull j = orNull Wire.text j := congrFun Wire.textOrNull_eq_orNull
    simp only [slots, List.forall_mem_cons, List.not_mem_nil, false_imp_iff, takeField_id, takeField_list,
      takeField_map, takeField, htext, implies_true, and_true, true_and]
    refine ⟨fun d j => ?name, fun d j => ?kind, fun d j => ?value, fun d j => ?reference, fun d j => ?closure,
      fun d j => ?option⟩
    case kind => cases kindOf r j <;> rfl
    case value => rfl
    all_goals cases orNull Wire.text j <;> rfl
  take_other key hkey d j := by
    simp only [slots, List.map_cons, List.map_nil, List.mem_cons, List.not_mem_nil, or_false, not_or] at hkey
    simp [takeField, hkey]
  get_set := by simp [slots]
  get_set_of_ne := by simp [slots]

theorem takeFields_eq_foldlM : ∀ (fs : List (String × Json)) (d : Draft),
    takeFields r d fs = fs.foldlM (fun d e => takeField r d e.1 e.2) d
  | [], _ => rfl
  | (key, j) :: fs, d => by
    rw [takeFields, List.foldlM_cons]
    exact congrArg _ (funext fun d => takeFields_eq_foldlM fs d)

theorem finish_of_slots {d last : Draft} (h : ∀ s ∈ Draft.slots r, s.get d = s.get last) : d.finish = last.finish := by
  simp only [Draft.slots, List.forall_mem_cons, List.not_mem_nil, false_imp_iff, implies_true, and_true] at h
  obtain ⟨kind, wire⟩ := d
  obtain ⟨kind', wire'⟩ := last
  cases wire
  cases wire'
  simp_all only [Draft.finish]

/-- **A flat object is read slot by slot**, whatever the order of its fields. -/
theorem ofJson_of_taken {last : Draft} (hfs : (fs.map Prod.fst).Nodup)
    (h : ∀ s ∈ Draft.slots r, Taken fs s.key s.read (s.get .empty) (s.get last)) :
    ofJson r (.object fs) = last.finish := by
  obtain ⟨d, hd, hlast⟩ := Draft.fills.foldlM hfs h
  rw [ofJson, takeFields_eq_foldlM, hd]
  exact finish_of_slots hlast

/-! ## Writing -/

/-- The fields of a flat object, each written only where it is set. -/
def toFields (w : VariableWire) : List (String × Json) :=
  writtenField "name" .string w.name ++
  writtenField "id" (fun i => .string i.text) w.id ++
  writtenField "type" (fun k => .string k.name) (some w.kind) ++
  writtenField "value" (fun j => j) w.value ++
  writtenField "variable" .string w.reference ++
  writtenField "list" (fun items => .array (items.map toJson)) w.list ++
  writtenField "map" (fun entries => .object (entries.map fun e => (e.1, toJson e.2))) w.map ++
  writtenField "closure" .string w.closure ++
  writtenField "option" .string w.option

theorem listToJson_eq_map : ∀ l : List VariableWire, listToJson l = l.map toJson
  | [] => by rw [listToJson, List.map_nil]
  | w :: rest => by rw [listToJson, listToJson_eq_map rest, List.map_cons]

theorem entriesToJson_eq_map : ∀ l : List (String × VariableWire), entriesToJson l = l.map fun e => (e.1, toJson e.2)
  | [] => by rw [entriesToJson, List.map_nil]
  | (key, w) :: rest => by rw [entriesToJson, entriesToJson_eq_map rest, List.map_cons]

theorem toJson_eq (w : VariableWire) : w.toJson = .object w.toFields := by
  obtain ⟨name, id, kind, value, reference, list, map, closure, option⟩ := w
  cases list <;> cases map <;> simp only [toJson, toFields, listToJson_eq_map, entriesToJson_eq_map, writtenField]

section WrittenField

variable {α : Type} (key : String) (write : α → Json) (o : Option α)

theorem valueOf?_writtenField (n : String) :
    NameMap.valueOf? n (writtenField key write o) = if key = n then o.map write else none := by
  cases o with
  | none => simp [writtenField, NameMap.valueOf?]
  | some a => simp [writtenField, NameMap.valueOf?]

theorem map_fst_writtenField : ((writtenField key write o).map Prod.fst).Sublist [key] := by
  cases o with
  | none => simp [writtenField]
  | some a => simp [writtenField]

theorem map_writtenField (g : Json → Json) :
    (writtenField key write o).map (fun e => (e.1, g e.2)) = writtenField key (fun a => g (write a)) o := by
  cases o <;> rfl

theorem writtenField_map_of_eq {key : String} {write : α → Json} {o : Option α} {g : α → α}
    (h : ∀ a, o = some a → write (g a) = write a) : writtenField key write (o.map g) = writtenField key write o := by
  cases ho : o with
  | none => rfl
  | some a => rw [Option.map_some, writtenField, writtenField, h a ho]

end WrittenField

theorem sublist_keys (w : VariableWire) : (w.toFields.map Prod.fst).Sublist keys := by
  show List.Sublist _ (["name"] ++ ["id"] ++ ["type"] ++ ["value"] ++ ["variable"] ++ ["list"] ++ ["map"] ++
    ["closure"] ++ ["option"])
  simp only [toFields, List.map_append]
  repeat' apply List.Sublist.append
  all_goals exact map_fst_writtenField _ _ _

/-- **What fields show of a flat object**: under each key what is written there, laid out. -/
structure Shows (form : Json → Json) (w : VariableWire) (fs : List (String × Json)) : Prop where
  nodup : (fs.map Prod.fst).Nodup
  name : NameMap.valueOf? "name" fs = w.name.map fun s => form (.string s)
  id : NameMap.valueOf? "id" fs = w.id.map fun i => form (.string i.text)
  kind : NameMap.valueOf? "type" fs = some (form (.string w.kind.name))
  value : NameMap.valueOf? "value" fs = w.value.map form
  reference : NameMap.valueOf? "variable" fs = w.reference.map fun s => form (.string s)
  list : NameMap.valueOf? "list" fs = w.list.map fun items => form (.array (items.map toJson))
  map : NameMap.valueOf? "map" fs = w.map.map fun entries => form (.object (entries.map fun e => (e.1, toJson e.2)))
  closure : NameMap.valueOf? "closure" fs = w.closure.map fun s => form (.string s)
  option : NameMap.valueOf? "option" fs = w.option.map fun s => form (.string s)

theorem exists_shows {form : Json → Json} (hform : Json.Layout form) (w : VariableWire) :
    ∃ fs, form w.toJson = .object fs ∧ Shows form w fs := by
  obtain ⟨fs, hfs, hnodup, hkey⟩ := hform.object w.toFields (w.sublist_keys.nodup (by decide))
  refine ⟨fs, by rw [toJson_eq, hfs], hnodup, ?_, ?_, ?_, ?_, ?_, ?_, ?_, ?_, ?_⟩ <;>
    simp [hkey, toFields, NameMap.valueOf?_append, valueOf?_writtenField, Option.map_map, Function.comp_def]

/-- **Fields that show a flat object are read as the object**, with its value laid out and with the list and the map
that are read below it. -/
theorem Shows.ofJson {form : Json → Json} {items : List VariableWire → List VariableWire}
    {entries : List (String × VariableWire) → List (String × VariableWire)} (h : Shows form w fs)
    (hform : ∀ s, form (.string s) = .string s)
    (hitems : ∀ l, w.list = some l → itemsOf r (form (.array (l.map toJson))) = .ok (items l))
    (hentries : ∀ l, w.map = some l →
      namedOf r (form (.object (l.map fun e => (e.1, toJson e.2)))) = .ok (entries l)) :
    VariableWire.ofJson r (.object fs) =
      .ok { w with value := w.value.map form, list := w.list.map items, map := w.map.map entries } := by
  have htext : ∀ s, orNull Wire.text (form (.string s)) = .ok (some s) := fun s => by
    rw [hform]
    rfl
  have hid : ∀ i : AssignmentId, orNull Wire.id (form (.string i.text)) = .ok (some i) := fun i => by
    rw [hform]
    exact Wire.orNull_eq_ok rfl (Wire.id_text i)
  have hslots : ∀ s ∈ Draft.slots r, Taken fs s.key s.read (s.get .empty) (s.get ⟨some w.kind,
      { w with value := w.value.map form, list := w.list.map items, map := w.map.map entries }⟩) := by
    simp only [Draft.slots, List.forall_mem_cons, List.not_mem_nil, false_imp_iff, implies_true, and_true]
    refine ⟨Wire.taken_of_inverse h.name htext, Wire.taken_of_inverse h.id hid, ?_, ?_,
      Wire.taken_of_inverse h.reference htext, ?_, ?_, Wire.taken_of_inverse h.closure htext,
      Wire.taken_of_inverse h.option htext⟩
    · rw [Taken, h.kind, hform]
      simp only [kindOf, VariableKind.ofName?_name]
      rfl
    · rw [Taken, h.value]
      cases w.value <;> rfl
    · exact Wire.taken_of_written h.list fun l hl => Wire.orNull_eq_ok rfl (hitems l hl)
    · exact Wire.taken_of_written h.map fun l hl => Wire.orNull_eq_ok rfl (hentries l hl)
  exact ofJson_of_taken h.nodup hslots

theorem listOf_map {f : VariableWire → Json} {g : VariableWire → VariableWire} : ∀ {l : List VariableWire},
    (∀ x ∈ l, ofJson r (f x) = .ok (g x)) → listOf r (l.map f) = .ok (l.map g)
  | [], _ => rfl
  | x :: l, h => by
    obtain ⟨hx, hl⟩ := List.forall_mem_cons.1 h
    rw [List.map_cons, listOf, hx, listOf_map hl]
    rfl

theorem entriesOf_map {f : VariableWire → Json} {g : VariableWire → VariableWire} :
    ∀ {l : List (String × VariableWire)}, (∀ e ∈ l, ofJson r (f e.2) = .ok (g e.2)) →
      entriesOf r (l.map fun e => (e.1, f e.2)) = .ok (l.map fun e => (e.1, g e.2))
  | [], _ => rfl
  | (key, x) :: l, h => by
    obtain ⟨hx, hl⟩ := List.forall_mem_cons.1 h
    rw [List.map_cons, entriesOf, hx, entriesOf_map hl]
    rfl

/-- **A flat object is read as it was written.** -/
theorem ofJson_toJson (w : VariableWire) : ofJson r w.toJson = .ok w := by
  induction w using induction with
  | step w hlist hmap =>
    have hitems : ∀ l, w.list = some l → itemsOf r (.array (l.map toJson)) = .ok l := fun l hl => by
      have := listOf_map (g := fun x => x) (hlist l hl)
      rwa [List.map_id'] at this
    have hentries : ∀ l, w.map = some l → namedOf r (.object (l.map fun e => (e.1, toJson e.2))) = .ok l :=
      fun l hl => by
        have := entriesOf_map (g := fun x => x) (hmap l hl)
        rwa [List.map_id'] at this
    obtain ⟨fs, hfs, hshows⟩ := exists_shows Json.layout_written w
    rw [show w.toJson = .object fs from hfs, hshows.ofJson (fun _ => rfl) hitems hentries]
    cases w
    simp only [Option.map_id']

/-! ## Key order -/

mutual

/-- **A flat object with its documents and its maps in key order.** -/
def sorted (w : VariableWire) : VariableWire :=
  match w with
  | ⟨name, id, kind, value, reference, list, map, closure, option⟩ =>
    ⟨name, id, kind, value.map Json.sorted, reference,
      (match list with
        | none => none
        | some items => some (sortedItems items)),
      (match map with
        | none => none
        | some entries => some (NameMap.ofList (sortedEntries entries)).entries),
      closure, option⟩
termination_by sizeOf w

def sortedItems (l : List VariableWire) : List VariableWire :=
  match l with
  | [] => []
  | w :: rest => sorted w :: sortedItems rest
termination_by sizeOf l

def sortedEntries (l : List (String × VariableWire)) : List (String × VariableWire) :=
  match l with
  | [] => []
  | (key, w) :: rest => (key, sorted w) :: sortedEntries rest
termination_by sizeOf l

end

theorem sortedItems_eq_map : ∀ l : List VariableWire, sortedItems l = l.map sorted
  | [] => by rw [sortedItems, List.map_nil]
  | w :: rest => by rw [sortedItems, sortedItems_eq_map rest, List.map_cons]

theorem sortedEntries_eq_map : ∀ l : List (String × VariableWire), sortedEntries l = l.map fun e => (e.1, sorted e.2)
  | [] => by rw [sortedEntries, List.map_nil]
  | (key, w) :: rest => by rw [sortedEntries, sortedEntries_eq_map rest, List.map_cons]

theorem sorted_eq (w : VariableWire) : w.sorted = { w with
    value := w.value.map Json.sorted
    list := w.list.map (List.map sorted)
    map := w.map.map fun l => ((NameMap.ofList l).map sorted).entries } := by
  obtain ⟨name, id, kind, value, reference, list, map, closure, option⟩ := w
  cases list <;> cases map <;>
    simp only [sorted, sortedItems_eq_map, sortedEntries_eq_map, NameMap.ofList_map, Option.map_none, Option.map_some]

/-- **With its document in key order a flat object is read in key order.** -/
theorem ofJson_toJson_sorted (w : VariableWire) : ofJson r w.toJson.sorted = .ok w.sorted := by
  induction w using induction with
  | step w hlist hmap =>
    obtain ⟨fs, hfs, hshows⟩ := exists_shows Json.layout_sorted w
    rw [hfs, sorted_eq]
    refine hshows.ofJson (fun _ => rfl) (fun l hl => ?_) fun l hl => ?_
    · rw [Json.sorted_array, List.map_map]
      exact listOf_map (hlist l hl)
    · rw [Json.sorted_object, NameMap.ofList_map, NameMap.entries_map, NameMap.entries_map, List.map_map]
      exact entriesOf_map (f := fun x => x.toJson.sorted) fun e he => hmap l hl e (NameMap.mem_of_mem_ofList he)

/-- A flat object in key order has the same document. -/
theorem toJson_sorted (w : VariableWire) : w.sorted.toJson.sorted = w.toJson.sorted := by
  induction w using induction with
  | step w hlist hmap =>
    have hvalue : writtenField "value" Json.sorted (w.value.map Json.sorted) =
        writtenField "value" Json.sorted w.value := writtenField_map_of_eq fun j _ => j.sorted_sorted
    have hitems : writtenField "list" (fun l => (Json.array (l.map toJson)).sorted) (w.list.map (List.map sorted)) =
        writtenField "list" (fun l => (Json.array (l.map toJson)).sorted) w.list := by
      refine writtenField_map_of_eq fun l hl => ?_
      rw [Json.sorted_array, Json.sorted_array, List.map_map, List.map_map, List.map_map]
      exact congrArg _ (List.map_congr_left (hlist l hl))
    have hentries : writtenField "map" (fun l => (Json.object (l.map fun e => (e.1, toJson e.2))).sorted)
          (w.map.map fun l => ((NameMap.ofList l).map sorted).entries) =
        writtenField "map" (fun l => (Json.object (l.map fun e => (e.1, toJson e.2))).sorted) w.map := by
      refine writtenField_map_of_eq fun l hl => ?_
      rw [Json.sorted_object, Json.sorted_object, NameMap.ofList_map, NameMap.ofList_map, NameMap.ofList_entries]
      simp only [NameMap.entries_map, List.map_map]
      exact congrArg _ (List.map_congr_left fun e he => Prod.ext rfl (hmap l hl e (NameMap.mem_of_mem_ofList he)))
    rw [toJson_eq, toJson_eq, Json.sorted_object, Json.sorted_object, ← NameMap.ofList_map, ← NameMap.ofList_map,
      sorted_eq]
    simp only [toFields, List.map_append, map_writtenField, hvalue, hitems, hentries]

end VariableWire
end DeployInventory
