import DeployInventory.Proofs.VariableList.Log
/-!
# Proofs.VariableList.Regions — what looking at neighbours tells of a list

A list whose neighbours are in order falls into two regions, entries without an id and then entries with ascending ids,
and a list in two regions has its neighbours in order (`isWellOrdered_iff_regions`). The same said of places: no entry
without an id stands behind one with an id, and of two ids the one in front is the smaller (`isWellOrdered_decides`).
-/
namespace DeployInventory
namespace VariableList

/-- **A list in two regions**: entries without an id, then entries with these ids, which ascend. -/
structure Regions (l u d : VariableList) (ids : List AssignmentId) : Prop where
  parts : u ++ d = l
  undated : ∀ e ∈ u, e.id = none
  carried : d.map (·.id) = ids.map some
  ascending : ids.Pairwise (· < ·)

variable {l u d : VariableList} {ids : List AssignmentId} {e f : VariableEntry}

theorem Regions.nodup (h : Regions l u d ids) : ids.Nodup :=
  h.ascending.imp AssignmentId.ne_of_lt

/-- In the second region any two entries are in order, as their ids ascend. -/
theorem Regions.dated (h : Regions l u d ids) : Dated d := by
  have hpairs : (ids.map some).Pairwise fun o p => ∃ i j, o = some i ∧ p = some j ∧ i < j :=
    List.pairwise_map.2 (h.ascending.imp fun hij => ⟨_, _, rfl, rfl, hij⟩)
  rw [← h.carried, List.pairwise_map] at hpairs
  refine ⟨hpairs.imp ?_, fun e he => ?_⟩
  · rintro e f ⟨i, j, hi, hj, hij⟩
    simpa [inOrder, hi, hj] using hij
  · have hmem : e.id ∈ ids.map some := h.carried ▸ List.mem_map_of_mem he
    obtain ⟨i, -, hi⟩ := List.mem_map.1 hmem
    exact ⟨i, hi.symm⟩

/-- **Neighbours are in order in the lists in two regions only.** -/
theorem isWellOrdered_iff_regions : l.isWellOrdered = true ↔ ∃ u d ids, Regions l u d ids := by
  rw [isWellOrdered_iff]
  constructor
  · intro hl
    obtain ⟨ids, hids, hasc⟩ := (dated_assigned hl).exists_ids
    exact ⟨l.unassigned, l.assigned, ids, unassigned_append_assigned l, fun e => id_of_mem_unassigned, hids, hasc⟩
  · rintro ⟨u, d, ids, h⟩
    rw [← h.parts]
    exact wellOrdered_append h.undated h.dated

theorem inOrder_iff : inOrder e f = true ↔
    (∀ i j, e.id = some i → f.id = some j → i < j) ∧ (f.id = none → e.id = none) := by
  unfold inOrder
  cases e.id <;> cases f.id <;> simp

/-- **Looking at neighbours decides the whole list.** They are all in order just when the list falls into entries
without an id and entries with different, ascending ids behind them. This says that for any two places, of two ids the
one in front is the smaller, and that no entry without an id stands behind one with an id. -/
theorem isWellOrdered_decides (l : VariableList) :
    (l.isWellOrdered = true ↔ ∃ u d ids, Regions l u d ids ∧ ids.Nodup) ∧
    (l.isWellOrdered = true ↔
      ∀ (m n : Nat) (hm : m < l.length) (hn : n < l.length), m < n →
        (∀ i j, l[m].id = some i → l[n].id = some j → i < j) ∧ (l[n].id = none → l[m].id = none)) := by
  constructor
  · rw [isWellOrdered_iff_regions]
    constructor
    · rintro ⟨u, d, ids, h⟩
      exact ⟨u, d, ids, h, h.nodup⟩
    · rintro ⟨u, d, ids, h, -⟩
      exact ⟨u, d, ids, h⟩
  · simp only [isWellOrdered_iff, WellOrdered, List.pairwise_iff_getElem, inOrder_iff]

example : isWellOrdered [⟨"port", some (.root 1), .list []⟩, ⟨"zone", none, .list []⟩] = false := by decide

end VariableList
end DeployInventory
