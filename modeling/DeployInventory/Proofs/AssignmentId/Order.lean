import DeployInventory.AssignmentId
/-!
# Proofs.AssignmentId.Order — ids are totally ordered

`compare` says `.eq` of equal ids only (`compare_eq_iff`), says the opposite of swapped ids (`compare_swap`), and the
order is transitive.
-/
namespace DeployInventory
namespace AssignmentId

theorem compareComponents_eq_iff : ∀ {xs ys : List UInt64}, compareComponents xs ys = .eq ↔ xs = ys
  | [], [] => by simp [compareComponents]
  | [], _ :: _ => by simp [compareComponents]
  | _ :: _, [] => by simp [compareComponents]
  | x :: xs, y :: ys => by
    unfold compareComponents
    split
    · rename_i hlt
      simp [UInt64.ne_of_lt hlt]
    · split
      · rename_i hlt
        simp [(UInt64.ne_of_lt hlt).symm]
      · rename_i hxy hyx
        have hx : x = y := UInt64.le_antisymm (UInt64.not_lt.1 hyx) (UInt64.not_lt.1 hxy)
        simp [hx, compareComponents_eq_iff]

theorem compareComponents_swap : ∀ xs ys : List UInt64, compareComponents ys xs = (compareComponents xs ys).swap
  | [], [] => rfl
  | [], _ :: _ => rfl
  | _ :: _, [] => rfl
  | x :: xs, y :: ys => by
    unfold compareComponents
    by_cases hxy : x < y
    · simp [hxy, UInt64.not_lt.2 (UInt64.le_of_lt hxy)]
    · by_cases hyx : y < x
      · simp [hxy, hyx]
      · simp [hxy, hyx, compareComponents_swap xs ys]

theorem compareComponents_lt_trans : ∀ {xs ys zs : List UInt64}, compareComponents xs ys = .lt →
    compareComponents ys zs = .lt → compareComponents xs zs = .lt
  | [], _, _ :: _, _, _ => rfl
  | [], [], [], hxy, _ => hxy
  | [], _ :: _, [], _, hyz => by simp [compareComponents] at hyz
  | _ :: _, [], _, hxy, _ => by simp [compareComponents] at hxy
  | _ :: _, _ :: _, [], _, hyz => by simp [compareComponents] at hyz
  | x :: xs, y :: ys, z :: zs, hxy, hyz => by
    unfold compareComponents at hxy hyz ⊢
    by_cases h1 : x < y
    · by_cases h2 : y < z
      · simp [UInt64.lt_trans h1 h2]
      · by_cases h3 : z < y
        · simp [h2, h3] at hyz
        · have hy : y = z := UInt64.le_antisymm (UInt64.not_lt.1 h3) (UInt64.not_lt.1 h2)
          subst hy
          simp [h1]
    · by_cases h2 : y < x
      · simp [h1, h2] at hxy
      · have hx : x = y := UInt64.le_antisymm (UInt64.not_lt.1 h2) (UInt64.not_lt.1 h1)
        subst hx
        simp only [h1, if_false] at hxy
        by_cases h3 : x < z
        · simp [h3]
        · by_cases h4 : z < x
          · simp [h3, h4] at hyz
          · simp only [h3, h4, if_false] at hyz ⊢
            exact compareComponents_lt_trans hxy hyz

theorem compare_eq_iff {i j : AssignmentId} : compare i j = .eq ↔ i = j := by
  show compareComponents i.components j.components = .eq ↔ _
  rw [compareComponents_eq_iff]
  cases i
  cases j
  simp [components]

theorem compare_swap (i j : AssignmentId) : compare j i = (compare i j).swap :=
  compareComponents_swap i.components j.components

theorem compare_gt_iff {i j : AssignmentId} : compare i j = .gt ↔ j < i := by
  show _ ↔ compare j i = .lt
  rw [compare_swap i j, Ordering.swap_eq_lt]

theorem lt_trans {i j k : AssignmentId} (hij : i < j) (hjk : j < k) : i < k :=
  compareComponents_lt_trans hij hjk

theorem lt_irrefl (i : AssignmentId) : ¬ i < i := by
  intro h
  have heq : compare i i = .eq := compare_eq_iff.2 rfl
  rw [show compare i i = .lt from h] at heq
  cases heq

theorem ne_of_lt {i j : AssignmentId} (h : i < j) : i ≠ j := by
  rintro rfl
  exact lt_irrefl i h

theorem lt_asymm {i j : AssignmentId} (h : i < j) : ¬ j < i :=
  fun h' => lt_irrefl i (lt_trans h h')

end AssignmentId
end DeployInventory
