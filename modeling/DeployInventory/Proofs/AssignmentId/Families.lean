import DeployInventory.Proofs.AssignmentId.Order
import Mathlib.Order.Defs.Unbundled
/-!
# Proofs.AssignmentId.Families — the ids that continue an id lie together

An id is below another when the other continues it, or when it has the smaller number at the place where the two part
(`lt_iff`). What stands behind that place does not count. So two ids that part take all that continues them along, and
the ids that continue one id are an interval of the order with the id at its start (`families_contiguous`).
-/
namespace DeployInventory
namespace AssignmentId

/-- **Whether an id continues another**: it starts with the numbers of the other, and may be the other. -/
def Continues (j i : AssignmentId) : Prop := i.components <+: j.components

/-- Lists of numbers that part at a place where the first has the smaller number. -/
def PartsBelow (xs ys : List UInt64) : Prop :=
  ∃ common m n s t, xs = common ++ m :: s ∧ ys = common ++ n :: t ∧ m < n

variable {xs ys : List UInt64} {x y : UInt64} {i j u v w : AssignmentId}

/-- What stands behind the place where two lists part does not count. -/
theorem PartsBelow.append (h : PartsBelow xs ys) (s t : List UInt64) : PartsBelow (xs ++ s) (ys ++ t) := by
  obtain ⟨common, m, n, s', t', rfl, rfl, hmn⟩ := h
  exact ⟨common, m, n, s' ++ s, t' ++ t, by simp, by simp, hmn⟩

theorem not_partsBelow_nil : ¬ PartsBelow xs [] := by
  rintro ⟨common, m, n, s, t, -, hnil, -⟩
  simp at hnil

theorem partsBelow_cons_cons : PartsBelow (x :: xs) (y :: ys) ↔ x < y ∨ (x = y ∧ PartsBelow xs ys) := by
  constructor
  · rintro ⟨common, m, n, s, t, hx, hy, hmn⟩
    cases common with
    | nil =>
      cases hx
      cases hy
      exact .inl hmn
    | cons c common =>
      cases hx
      cases hy
      exact .inr ⟨rfl, common, m, n, s, t, rfl, rfl, hmn⟩
  · rintro (hlt | ⟨rfl, common, m, n, s, t, rfl, rfl, hmn⟩)
    · exact ⟨[], x, y, xs, ys, rfl, rfl, hlt⟩
    · exact ⟨x :: common, m, n, s, t, rfl, rfl, hmn⟩

/-- **A list is below another** when the other goes on where it ends, or when the two part so. -/
theorem compareComponents_eq_lt_iff : ∀ {xs ys : List UInt64},
    compareComponents xs ys = .lt ↔ (xs <+: ys ∧ ys ≠ xs) ∨ PartsBelow xs ys
  | [], [] => by simp [compareComponents, not_partsBelow_nil]
  | [], _ :: _ => by simp [compareComponents]
  | _ :: _, [] => by simp [compareComponents, not_partsBelow_nil]
  | x :: xs, y :: ys => by
    rw [compareComponents, partsBelow_cons_cons, List.cons_prefix_cons]
    by_cases hxy : x < y
    · simp [hxy]
    · by_cases hyx : y < x
      · simp [hxy, hyx, (UInt64.ne_of_lt hyx).symm]
      · have heq : x = y := UInt64.le_antisymm (UInt64.not_lt.1 hyx) (UInt64.not_lt.1 hxy)
        simp [heq, compareComponents_eq_lt_iff]

theorem components_inj : i.components = j.components ↔ i = j :=
  compareComponents_eq_iff.symm.trans compare_eq_iff

/-- **An id is below another** that continues it, and below one that has the larger number where the two part. -/
theorem lt_iff : i < j ↔ (j.Continues i ∧ j ≠ i) ∨ PartsBelow i.components j.components := by
  rw [Ne, ← components_inj]
  exact compareComponents_eq_lt_iff

theorem lt_of_continues (h : j.Continues i) (hne : j ≠ i) : i < j := lt_iff.2 (.inl ⟨h, hne⟩)

/-- **Ids that part take what continues them along.** -/
theorem lt_of_parted (hij : i < j) (hpart : ¬ j.Continues i) (hu : u.Continues i) (hv : v.Continues j) : u < v := by
  obtain ⟨s, hs⟩ := hu
  obtain ⟨t, ht⟩ := hv
  have hbelow := (lt_iff.1 hij).resolve_left fun h => hpart h.1
  rw [lt_iff, ← hs, ← ht]
  exact .inr (hbelow.append s t)

/-- **What lies between two ids that continue an id continues it too.** -/
theorem continues_of_between (hu : u.Continues i) (hw : w.Continues i) (huv : u < v) (hvw : v < w) :
    v.Continues i := by
  refine Classical.byContradiction fun hv => ?_
  have hiv : i < v := by
    by_cases hui : u = i
    · rwa [← hui]
    · exact lt_trans (lt_of_continues hu hui) huv
  -- all that continues the id would lie below `v`, as `w` does not
  exact lt_asymm hvw (lt_of_parted hiv hv hw (List.prefix_refl _))

theorem lt_trichotomy (i j : AssignmentId) : i < j ∨ i = j ∨ j < i := by
  cases h : compare i j with
  | lt => exact .inl h
  | eq => exact .inr (.inl (compare_eq_iff.1 h))
  | gt => exact .inr (.inr (compare_gt_iff.1 h))

theorem isStrictTotalOrder : IsStrictTotalOrder AssignmentId (· < ·) where
  irrefl := lt_irrefl
  trans _ _ _ := lt_trans
  trichotomous i j hij hji := ((lt_trichotomy i j).resolve_left hij).resolve_right hji

/-- **Ids are totally ordered and families lie together.** The comparison is a strict total order that takes ids for
equal which have the same numbers. An id comes before all others that continue it. Of two ids that part, the smaller
comes, with all that continues it, before the larger and all that continues that. So what lies between ids that
continue an id continues it. -/
theorem families_contiguous :
    IsStrictTotalOrder AssignmentId (fun i j => compare i j = .lt) ∧
    (∀ i j : AssignmentId, (compare i j = .eq ↔ i.components = j.components) ∧ (compare i j = .gt ↔ j < i)) ∧
    (∀ i j : AssignmentId, j.Continues i → j ≠ i → i < j) ∧
    (∀ i j : AssignmentId, i < j → ¬ j.Continues i → ∀ u v : AssignmentId, u.Continues i → v.Continues j →
      u < j ∧ u < v) ∧
    ∀ i u v w : AssignmentId, u.Continues i → w.Continues i → u < v → v < w → v.Continues i := by
  refine ⟨isStrictTotalOrder, fun i j => ⟨compareComponents_eq_iff, compare_gt_iff⟩, fun i j => lt_of_continues,
    fun i j hij hpart u v hu hv => ⟨?_, ?_⟩, fun i u v w => continues_of_between⟩
  · exact lt_of_parted hij hpart hu (List.prefix_refl j.components)
  · exact lt_of_parted hij hpart hu hv

theorem thirdIds_contiguous :
    (⟨3, [1]⟩ : AssignmentId) < ⟨3, [2]⟩ ∧ ¬ (⟨3, [2]⟩ : AssignmentId).Continues ⟨3, [1]⟩ ∧
    (⟨3, [1, 99]⟩ : AssignmentId) < ⟨3, [2]⟩ ∧ (⟨3, [1, 99]⟩ : AssignmentId) < ⟨3, [2, 0, 7]⟩ ∧
    (⟨3, [1, 4]⟩ : AssignmentId).Continues ⟨3, [1]⟩ := by
  obtain ⟨-, -, -, hparted, hbetween⟩ := families_contiguous
  have hlong : (⟨3, [1, 99]⟩ : AssignmentId).Continues ⟨3, [1]⟩ := ⟨[99], rfl⟩
  have hbelow : (⟨3, [1]⟩ : AssignmentId) < ⟨3, [2]⟩ := by decide
  have hpart : ¬ (⟨3, [2]⟩ : AssignmentId).Continues ⟨3, [1]⟩ := by
    rintro ⟨more, hmore⟩
    cases hmore
  obtain ⟨hbefore, hbehind⟩ := hparted _ _ hbelow hpart _ ⟨3, [2, 0, 7]⟩ hlong ⟨[0, 7], rfl⟩
  exact ⟨hbelow, hpart, hbefore, hbehind,
    hbetween _ _ ⟨3, [1, 4]⟩ _ (List.prefix_refl _) hlong (by decide) (by decide)⟩

end AssignmentId
end DeployInventory
