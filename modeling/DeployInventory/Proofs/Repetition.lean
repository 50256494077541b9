import Mathlib.Data.List.Induction
import Mathlib.Data.List.Nodup
/-!
# Proofs.Repetition — lists without their repetitions

`eraseDups` keeps every element of a list where it stands first (`pairwise_idxOf_eraseDups`). All here is read off what
one more element at the end adds (`eraseDups_concat`).
-/
namespace DeployInventory

variable {α β : Type} [BEq α] [LawfulBEq α] [BEq β] [LawfulBEq β]

theorem eraseDups_concat (l : List α) (a : α) :
    (l ++ [a]).eraseDups = if a ∈ l then l.eraseDups else l.eraseDups ++ [a] := by
  rw [List.eraseDups_append]
  by_cases ha : a ∈ l
  · simp [List.removeAll, ha]
  · simp [List.removeAll, ha, List.eraseDups_cons]

/-- **What is kept of a list stands in the order of first occurrence.** -/
theorem pairwise_idxOf_eraseDups (l : List α) : l.eraseDups.Pairwise fun a b => l.idxOf a < l.idxOf b := by
  induction l using List.reverseRecOn with
  | nil => simp
  | append_singleton l a ih =>
    -- the place of what was there before does not change
    have hold : l.eraseDups.Pairwise fun x y => (l ++ [a]).idxOf x < (l ++ [a]).idxOf y :=
      ih.imp_of_mem fun hx hy hlt => by
        rwa [List.idxOf_append_of_mem (List.mem_eraseDups.1 hx), List.idxOf_append_of_mem (List.mem_eraseDups.1 hy)]
    rw [eraseDups_concat]
    by_cases ha : a ∈ l
    · rwa [if_pos ha]
    · rw [if_neg ha, List.pairwise_append]
      refine ⟨hold, List.pairwise_singleton _ _, fun x hx y hy => ?_⟩
      have hxl : x ∈ l := List.mem_eraseDups.1 hx
      rw [List.mem_singleton.1 hy, List.idxOf_append_of_mem hxl, List.idxOf_append_of_notMem ha]
      exact Nat.lt_add_right _ (List.idxOf_lt_length_iff.2 hxl)

theorem nodup_eraseDups (l : List α) : l.eraseDups.Nodup := by
  refine (pairwise_idxOf_eraseDups l).imp fun {a b} hlt => ?_
  rintro rfl
  exact Nat.lt_irrefl _ hlt

theorem filter_eraseDups (p : α → Bool) (l : List α) : l.eraseDups.filter p = (l.filter p).eraseDups := by
  induction l using List.reverseRecOn with
  | nil => rfl
  | append_singleton l a ih =>
    rw [eraseDups_concat, List.filter_append, List.filter_singleton]
    by_cases hp : p a = true
    · by_cases ha : a ∈ l <;> simp [hp, ha, ih, eraseDups_concat]
    · by_cases ha : a ∈ l <;> simp [hp, ha, ih]

theorem map_eraseDups {f : α → β} (hf : f.Injective) (l : List α) : l.eraseDups.map f = (l.map f).eraseDups := by
  induction l using List.reverseRecOn with
  | nil => rfl
  | append_singleton l a ih =>
    rw [List.map_append, List.map_singleton, eraseDups_concat, eraseDups_concat, ← ih]
    by_cases ha : a ∈ l
    · simp [ha, List.mem_map_of_mem]
    · have hfa : f a ∉ l.map f := fun h => ha ((List.mem_map_of_injective hf).1 h)
      rw [if_neg ha, if_neg hfa, List.map_append, List.map_singleton]

end DeployInventory
