import DeployInventory.EnvironmentQuery
import DeployInventory.Proofs.Lineage.Linearization
/-!
# Proofs.EnvironmentQuery — which environments a query includes

A query answers for its own environment without looking at the hierarchy, and for another one exactly when that one is
sound (`includes_eq_ok_iff`). The two ways of answering fit together: over the answers that are yes, inclusion is a
partial order, in broken hierarchies too (`includes_partialOrder`).
-/
namespace DeployInventory
namespace EnvironmentQuery

variable {h : Hierarchy} {q t u : String} {b : Bool}

theorem includes_self (h : Hierarchy) (q : String) : includes ⟨q⟩ h q = .ok true := if_pos rfl

theorem includes_of_ne (hne : q ≠ t) : includes ⟨q⟩ h t = h.isAncestor q t := if_neg hne.symm

/-- **A query answers for its own environment, and for others that are sound.** -/
theorem includes_eq_ok_iff :
    includes ⟨q⟩ h t = .ok b ↔ (q = t ∧ b = true) ∨ (q ≠ t ∧ h.Sound t ∧ (b = true ↔ h.IsAncestor q t)) := by
  by_cases hq : q = t
  · subst hq
    rw [includes_self, Except.ok.injEq]
    simp [eq_comm]
  · rw [includes_of_ne hq, Hierarchy.isAncestor_eq_ok_iff]
    simp [hq]

theorem includes_eq_ok_true_iff : includes ⟨q⟩ h t = .ok true ↔ q = t ∨ (h.Sound t ∧ h.IsAncestor q t) := by
  rw [includes_eq_ok_iff]
  by_cases hq : q = t
  · simp [hq]
  · simp [hq]

theorem exists_includes_eq_ok_iff : (∃ b, includes ⟨q⟩ h t = .ok b) ↔ q = t ∨ h.Sound t := by
  constructor
  · rintro ⟨b, hb⟩
    obtain ⟨hq, -⟩ | ⟨-, hs, -⟩ := includes_eq_ok_iff.1 hb
    · exact .inl hq
    · exact .inr hs
  · rintro (rfl | hs)
    · exact ⟨true, includes_self h q⟩
    · by_cases hq : q = t
      · exact ⟨true, hq ▸ includes_self h q⟩
      · obtain ⟨nodes, hnodes⟩ := hs.exists_ancestors
        have hanswer : h.isAncestor q t = .ok (nodes.reverse.contains q) := by
          unfold Hierarchy.isAncestor Hierarchy.descendingParents
          rw [hnodes]
          rfl
        exact ⟨_, (includes_of_ne hq).trans hanswer⟩

theorem exists_includes_eq_error_iff : (∃ e, includes ⟨q⟩ h t = .error e) ↔ q ≠ t ∧ ¬ h.Sound t := by
  rw [← not_or, ← exists_includes_eq_ok_iff]
  cases includes ⟨q⟩ h t with
  | error e => simp
  | ok b => simp

theorem atOrAbove_iff_of_includes {q : EnvironmentQuery} (hb : q.includes h t = .ok b) :
    b = true ↔ h.AtOrAbove q.environment t := by
  rw [Hierarchy.atOrAbove_iff]
  obtain ⟨hq, rfl⟩ | ⟨hq, -, hb⟩ := includes_eq_ok_iff.1 hb
  · simp [hq]
  · rw [hb]
    simp [hq]

theorem includes_trans (hqt : includes ⟨q⟩ h t = .ok true) (htu : includes ⟨t⟩ h u = .ok true) :
    includes ⟨q⟩ h u = .ok true := by
  -- Where one answer is given without the hierarchy, the other one is the answer for the whole.
  obtain rfl | ⟨-, hqt⟩ := includes_eq_ok_true_iff.1 hqt
  · exact htu
  · obtain rfl | ⟨hu, htu⟩ := includes_eq_ok_true_iff.1 htu
    · assumption
    · exact includes_eq_ok_true_iff.2 (.inr ⟨hu, hqt.trans htu⟩)

/-- Two environments that inherit from each other lie on a cycle, so that no query includes either from elsewhere. -/
theorem includes_antisymm (hqt : includes ⟨q⟩ h t = .ok true) (htq : includes ⟨t⟩ h q = .ok true) : q = t := by
  obtain hq | ⟨ht, hqt⟩ := includes_eq_ok_true_iff.1 hqt
  · exact hq
  · obtain ht | ⟨-, htq⟩ := includes_eq_ok_true_iff.1 htq
    · exact ht.symm
    · exact absurd (htq.trans hqt) (ht.acyclic t .refl)

/-- **Inclusion is a partial order.** Every query includes its own environment, known or not. Another environment is
included when all that it inherits from exists, lies on no cycle and has the queried one among it; not included when the
latter fails alone; and an error when the former does. So over the answers that are yes inclusion is transitive and
antisymmetric. -/
theorem includes_partialOrder (h : Hierarchy) :
    (∀ q, includes ⟨q⟩ h q = .ok true) ∧
    (∀ q t, q ≠ t →
      (includes ⟨q⟩ h t = .ok true ↔ h.Sound t ∧ h.IsAncestor q t) ∧
      (includes ⟨q⟩ h t = .ok false ↔ h.Sound t ∧ ¬ h.IsAncestor q t) ∧
      ((∃ e, includes ⟨q⟩ h t = .error e) ↔ ¬ h.Sound t)) ∧
    (∀ q t u, includes ⟨q⟩ h t = .ok true → includes ⟨t⟩ h u = .ok true → includes ⟨q⟩ h u = .ok true) ∧
    ∀ q t, includes ⟨q⟩ h t = .ok true → includes ⟨t⟩ h q = .ok true → q = t := by
  refine ⟨includes_self h, fun q t hne => ⟨?_, ?_, ?_⟩, fun _ _ _ => includes_trans, fun _ _ => includes_antisymm⟩
  · rw [includes_eq_ok_true_iff, or_iff_right hne]
  · rw [includes_eq_ok_iff]
    simp [hne]
  · rw [exists_includes_eq_error_iff, and_iff_right hne]

/-- A live environment below two others, and beside them a circle and a node with a parent that does not exist. -/
def damaged : Hierarchy :=
  .ofList
    [("all", []), ("prod", ["all"]), ("live", ["prod"]), ("east", ["west"]), ("west", ["east"]), ("lost", ["gone"])]

theorem damaged_includes : "all" ≠ "live" ∧ damaged.Sound "live" ∧ damaged.IsAncestor "all" "live" ∧
    includes ⟨"all"⟩ damaged "prod" = .ok true ∧ includes ⟨"prod"⟩ damaged "live" = .ok true ∧
    includes ⟨"all"⟩ damaged "live" = .ok true ∧ includes ⟨"east"⟩ damaged "east" = .ok true ∧
    "east" ≠ "west" ∧ ¬ damaged.Sound "west" ∧ ¬ damaged.Sound "lost" := by
  obtain ⟨hself, hother, htrans, -⟩ := includes_partialOrder damaged
  have hall : includes ⟨"all"⟩ damaged "prod" = .ok true := by cbv
  have hprod : includes ⟨"prod"⟩ damaged "live" = .ok true := by cbv
  have hlive := htrans _ _ _ hall hprod
  have hne : "all" ≠ "live" := by decide
  obtain ⟨hsound, hancestor⟩ := (hother _ _ hne).1.1 hlive
  have heast : "east" ≠ "west" := by decide
  have hlost : "all" ≠ "lost" := by decide
  have hcircle : ∃ e, includes ⟨"east"⟩ damaged "west" = .error e := ⟨_, by cbv⟩
  have hgone : ∃ e, includes ⟨"all"⟩ damaged "lost" = .error e := ⟨_, by cbv⟩
  exact ⟨hne, hsound, hancestor, hall, hprod, hlive, hself "east", heast, (hother _ _ heast).2.2.1 hcircle,
    (hother _ _ hlost).2.2.1 hgone⟩

end EnvironmentQuery
end DeployInventory
