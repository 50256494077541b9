import DeployInventory.Layers
import DeployInventory.Proofs.VariableList.Log
import Mathlib.Data.List.Induction
/-!
# Proofs.VariableList.Arrival — assignments that arrive in the order of their ids

An assignment whose id is larger than all that came before goes to the end of its list (`merge_of_behind`). So a log of
enabled assignments with ascending ids is merged as it stands (`Ascending.assignAll`), every assignment is there once,
and the last one with a name defines it (`Ascending.find?_layer`).
-/
namespace DeployInventory

/-- **A log that only adds**: its assignments are enabled and their ids ascend. -/
structure Ascending (log : List Assignment) : Prop where
  ids : log.Pairwise fun a b => a.id < b.id
  enabled : ∀ a ∈ log, a.disabled = false

namespace VariableList

/-- **A larger id goes to the end.** -/
theorem merge_of_behind {l : VariableList} {a : Assignment} (ha : a.disabled = false)
    (hlast : ∀ e ∈ l.getLast?, ∃ i, e.id = some i ∧ i < a.id) :
    l.merge a = (l ++ [a.placed], .inserted l.length) := by
  unfold merge
  rw [if_neg (by simp [ha])]
  rcases List.eq_nil_or_concat l with rfl | ⟨before, e, rfl⟩
  · rfl
  · obtain ⟨i, hi, hlt⟩ := hlast e (by simp)
    have hcompare : compare i a.id = .lt := hlt
    simp [place, hi, hcompare]

end VariableList

namespace Ascending

open VariableList (assignAll carries)

variable {log log' : List Assignment} {a : Assignment}

theorem nil : Ascending [] := ⟨.nil, by simp⟩

theorem sublist (h : Ascending log) (hsub : log'.Sublist log) : Ascending log' :=
  ⟨h.ids.sublist hsub, fun a ha => h.enabled a (hsub.subset ha)⟩

theorem append (h : Ascending log) (h' : Ascending log') (hlt : ∀ a ∈ log, ∀ b ∈ log', a.id < b.id) :
    Ascending (log ++ log') :=
  ⟨List.pairwise_append.2 ⟨h.ids, h'.ids, hlt⟩, fun a ha => (List.mem_append.1 ha).elim (h.enabled a) (h'.enabled a)⟩

/-- **The next assignment of such a log is appended.** -/
theorem merge_next (h : Ascending (log ++ [a])) :
    VariableList.merge (log.map (·.placed)) a = (log.map (·.placed) ++ [a.placed], .inserted log.length) := by
  have hbehind : ∀ b ∈ log, b.id < a.id := fun b hb =>
    (List.pairwise_append.1 h.ids).2.2 b hb a (List.mem_singleton_self a)
  rw [VariableList.merge_of_behind (h.enabled a (by simp)), List.length_map]
  intro e he
  obtain ⟨b, hb, rfl⟩ := List.mem_map.1 (List.mem_of_getLast? he)
  exact ⟨b.id, rfl, hbehind b hb⟩

/-- **Such a log is merged as it stands.** -/
theorem assignAll (h : Ascending log) : assignAll [] log = log.map (·.placed) := by
  -- From the back: what the log before the last assignment leaves ends with a smaller id.
  induction log using List.reverseRecOn with
  | nil => rfl
  | append_singleton log a ih =>
    have hlog : VariableList.assignAll [] log = log.map (·.placed) := ih (h.sublist (List.sublist_append_left log [a]))
    rw [VariableList.assignAll, List.foldl_concat, ← VariableList.assignAll, hlog, VariableList.assign, h.merge_next,
      List.map_append]
    rfl

theorem filter_id (h : Ascending log) (ha : a ∈ log) : log.filter (·.id == a.id) = [a] := by
  obtain ⟨before, after, rfl⟩ := List.append_of_mem ha
  obtain ⟨-, hafter, hbefore⟩ := List.pairwise_append.1 h.ids
  have hnone : ∀ l : List Assignment, (∀ b ∈ l, b.id ≠ a.id) → l.filter (·.id == a.id) = [] := fun l hl =>
    List.filter_eq_nil_iff.2 fun b hb => by simpa using hl b hb
  rw [List.filter_append, List.filter_cons_of_pos (by simp),
    hnone before fun b hb => AssignmentId.ne_of_lt (hbefore b hb a List.mem_cons_self),
    hnone after fun b hb => (AssignmentId.ne_of_lt ((List.pairwise_cons.1 hafter).1 b hb)).symm, List.nil_append]

/-- **The last assignment of a name defines it.** -/
theorem find?_layer (h : Ascending log) (origin name : String) :
    Layer.find? ⟨origin, VariableList.assignAll [] log⟩ name = (lastWith? (·.entry.name) name log).map (·.placed) := by
  rw [h.assignAll, Layer.find?, lastWith?, ← List.map_reverse, List.find?_map, ← List.head?_filter, List.filter_reverse,
    List.head?_reverse]
  rfl

end Ascending

end DeployInventory
