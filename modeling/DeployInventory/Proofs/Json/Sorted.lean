import DeployInventory.Json.Basic
import DeployInventory.Proofs.NameMap
/-!
# Proofs.Json.Sorted — documents with their fields in key order

Sorting an object keeps every look-up, its result sorted, as long as no key stands twice. A sorted document stays as it
is (`sorted_sorted`). What is read of a document is shown of every `Layout` of its fields at once: of the order in which
they are written and of key order.
-/
namespace DeployInventory
namespace Json

variable {fs : List (String × Json)}

theorem sortedItems_eq_map : ∀ items : List Json, sortedItems items = items.map sorted
  | [] => rfl
  | j :: rest => by rw [sortedItems, sortedItems_eq_map rest, List.map_cons]

theorem sortedFields_eq_map : ∀ fs : List (String × Json), sortedFields fs = fs.map fun e => (e.1, sorted e.2)
  | [] => rfl
  | (key, j) :: rest => by rw [sortedFields, sortedFields_eq_map rest, List.map_cons]

theorem sorted_array (items : List Json) : sorted (.array items) = .array (items.map sorted) := by
  rw [sorted, sortedItems_eq_map]

theorem sorted_object (fs : List (String × Json)) :
    sorted (.object fs) = .object ((NameMap.ofList fs).map sorted).entries := by
  rw [sorted, sortedFields_eq_map, NameMap.ofList_map]

mutual

/-- **Sorting a sorted document changes nothing.** -/
theorem sorted_sorted : ∀ j : Json, j.sorted.sorted = j.sorted
  | .null => rfl
  | .bool _ => rfl
  | .number _ => rfl
  | .string _ => rfl
  | .array items => by
    rw [sorted_array, sorted_array, List.map_map]
    exact congrArg _ (List.map_congr_left (sorted_sorted_items items))
  | .object fs => by
    rw [sorted_object, sorted_object, NameMap.ofList_entries]
    refine congrArg object ?_
    rw [NameMap.entries_map, NameMap.entries_map, List.map_map]
    refine List.map_congr_left fun e he => Prod.ext rfl ?_
    exact sorted_sorted_fields fs e (NameMap.mem_of_mem_ofList he)

theorem sorted_sorted_items : ∀ items : List Json, ∀ j ∈ items, j.sorted.sorted = j.sorted
  | [] => List.forall_mem_nil _
  | j :: rest => List.forall_mem_cons.2 ⟨sorted_sorted j, sorted_sorted_items rest⟩

theorem sorted_sorted_fields : ∀ fs : List (String × Json), ∀ e ∈ fs, e.2.sorted.sorted = e.2.sorted
  | [] => List.forall_mem_nil _
  | (_, j) :: rest => List.forall_mem_cons.2 ⟨sorted_sorted j, sorted_sorted_fields rest⟩

end

/-! ## Layouts -/

/-- **A way of laying the fields of objects out.** An object keeps every look-up, its result laid out, and a map keeps
its order. -/
structure Layout (form : Json → Json) : Prop where
  null : form .null = .null
  bool : ∀ b, form (.bool b) = .bool b
  number : ∀ n, form (.number n) = .number n
  string : ∀ s, form (.string s) = .string s
  array : ∀ items, form (.array items) = .array (items.map form)
  object : ∀ fs, (fs.map Prod.fst).Nodup → ∃ fs', form (.object fs) = .object fs' ∧ (fs'.map Prod.fst).Nodup ∧
    ∀ key, NameMap.valueOf? key fs' = (NameMap.valueOf? key fs).map form
  map : ∀ m : NameMap Json, form (.object m.entries) = .object (m.map form).entries

theorem layout_written : Layout fun j => j where
  null := rfl
  bool _ := rfl
  number _ := rfl
  string _ := rfl
  array items := by rw [List.map_id']
  object fs hfs := ⟨fs, rfl, hfs, fun _ => Option.map_id'.symm⟩
  map m := by rw [NameMap.entries_map, List.map_id']

theorem layout_sorted : Layout sorted where
  null := rfl
  bool _ := rfl
  number _ := rfl
  string _ := rfl
  array := sorted_array
  object fs hfs := by
    refine ⟨_, sorted_object fs, NameMap.nodup_entries _, fun key => ?_⟩
    rw [← NameMap.find?_ofList_of_nodup key hfs]
    exact NameMap.find?_map sorted _ key
  map m := by rw [sorted_object, NameMap.ofList_entries]

namespace Layout

variable {form : Json → Json}

theorem texts (h : Layout form) (l : List String) : form (.texts l) = .texts l := by
  rw [Json.texts, h.array, List.map_map]
  exact congrArg _ (List.map_congr_left fun s _ => h.string s)

theorem textOrNull (h : Layout form) : ∀ o, form (.textOrNull o) = .textOrNull o
  | none => h.null
  | some s => h.string s

theorem integerOrNull (h : Layout form) : ∀ o, form (.integerOrNull o) = .integerOrNull o
  | none => h.null
  | some n => h.number (.integer n)

end Layout

end Json
end DeployInventory
