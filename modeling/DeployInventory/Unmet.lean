import DeployInventory.NameMap
/-!
# Unmet — the part of a list that a walk has not met

A walk that never goes to the same name twice ends: with every name it goes to, fewer are unmet (`unmet_cons_lt`).
-/
namespace DeployInventory

/-- The names of a list that are not among those met. -/
def unmet (names met : List String) : List String := names.filter fun n => !met.contains n

/-- No more names are unmet than a map has. -/
theorem NameMap.length_unmet_le {α : Type} (m : NameMap α) (met : List String) :
    (unmet m.names met).length ≤ m.size := by
  rw [← m.length_names]
  exact List.length_filter_le _ _

theorem unmet_cons_lt {names met : List String} {n : String} (hn : n ∈ names) (hm : n ∉ met) :
    (unmet names (n :: met)).length < (unmet names met).length := by
  have hsub : unmet names (n :: met) = (unmet names met).filter fun m => m != n := by
    simp only [unmet, List.filter_filter]
    congr 1
    funext m
    by_cases h : m = n <;> simp [h]
  rw [hsub]
  refine List.length_filter_lt_length_iff_exists.2 ⟨n, ?_, by simp⟩
  simp only [unmet, List.mem_filter]
  exact ⟨hn, by simpa using hm⟩

end DeployInventory
