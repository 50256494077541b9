import DeployInventory.Proofs.Inventory.Validity
import DeployInventory.Proofs.Lineage.Defects
/-!
# Proofs.Inventory.Problems — the verdict of validation, and the problems that it reports

Every node of a hierarchy is sound when every declared parent exists and no node is a transitive parent of itself
(`Hierarchy.forall_sound_iff`), so validation decides that for the whole inventory although it stops at one defect a
node. What it reports is what some node's lineage fails with, and so is there (`isValid_decides`).
-/
namespace DeployInventory

theorem errorOf?_eq_some_iff {ε α : Type} {x : Except ε α} {e : ε} : errorOf? x = some e ↔ x = .error e := by
  cases x with
  | error e' => simp [errorOf?]
  | ok a => simp [errorOf?]

namespace Hierarchy

variable {h : Hierarchy} {start : String} {e : LineageError}

/-- **Soundness of all nodes is a matter of single declarations and of cycles.** -/
theorem forall_sound_iff : (∀ n ∈ h.names, h.Sound n) ↔
    (∀ n p, h.IsParent p n → p ∈ h.names) ∧ ∀ n ∈ h.names, ¬ h.IsAncestor n n := by
  constructor
  · intro hsound
    exact ⟨fun n p hp => (hsound n hp.mem_names).known p (.single hp), fun n hn => (hsound n hn).acyclic n .refl⟩
  · rintro ⟨hparents, hcycles⟩ n hn
    have hknown : ∀ a, h.AtOrAbove a n → a ∈ h.names := by
      intro a ha
      induction ha using Relation.ReflTransGen.head_induction_on with
      | refl => exact hn
      | head hp _ _ => exact hparents _ _ hp
    exact ⟨hknown, fun a ha => hcycles a (hknown a ha)⟩

/-- What a known node's lineage can fail with. -/
theorem Defect.of_known (hd : Defect h start e) (hstart : start ∈ h.names) :
    (∃ m c, e = .missingNode m (some c) ∧ c ∈ h.names ∧ h.IsParent m c ∧ m ∉ h.names) ∨
    ∃ cycle, e = .cyclic cycle ∧ h.ParentCycle cycle := by
  cases hd with
  | unknownStart unknown => exact absurd hstart unknown
  | unknownParent _ known declared unknown => exact .inl ⟨_, _, rfl, known, declared, unknown⟩
  | cycle closes _ => exact .inr ⟨_, rfl, closes⟩

end Hierarchy

namespace Inventory

variable {inv : Inventory} {kind : NodeKind} {e : LineageError}

/-- **Validation reports what the lineages of the nodes fail with**, and nothing else. -/
theorem mem_problems_iff : (kind, e) ∈ inv.problems ↔ ∃ n ∈ inv.names kind, inv.lineage kind n = .error e := by
  simp only [problems, List.mem_flatMap, List.mem_map, Prod.mk.injEq, NodeKind.mem_all, true_and]
  constructor
  · rintro ⟨k, f, hf, rfl, rfl⟩
    simpa only [mem_problemsOf, errorOf?_eq_some_iff] using hf
  · intro hn
    exact ⟨kind, e, by simpa only [mem_problemsOf, errorOf?_eq_some_iff] using hn, rfl, rfl⟩

/-- **Validation decides whether the hierarchies are in order.** An inventory is valid just when, for every kind, every
declared parent of every node exists and no node is a transitive parent of itself. The problems are what the lineages
of the nodes fail with; each names an existing node that declares a parent which does not exist, or lists a cycle of
declared parents. -/
theorem isValid_decides (inv : Inventory) :
    (inv.isValid = true ↔ ∀ kind,
      (∀ n p, (inv.hierarchy kind).IsParent p n → p ∈ inv.names kind) ∧
      ∀ n ∈ inv.names kind, ¬ (inv.hierarchy kind).IsAncestor n n) ∧
    (∀ kind e, (kind, e) ∈ inv.problems ↔ ∃ n ∈ inv.names kind, inv.lineage kind n = .error e) ∧
    ∀ kind e, (kind, e) ∈ inv.problems →
      (∃ m c, e = .missingNode m (some c) ∧ c ∈ inv.names kind ∧ (inv.hierarchy kind).IsParent m c ∧
        m ∉ inv.names kind) ∨
      ∃ cycle, e = .cyclic cycle ∧ (inv.hierarchy kind).ParentCycle cycle := by
  refine ⟨?_, fun kind e => mem_problems_iff, fun kind e he => ?_⟩
  · rw [isValid_iff]
    exact forall_congr' fun kind => Hierarchy.forall_sound_iff
  · obtain ⟨n, hn, hlineage⟩ := mem_problems_iff.1 he
    exact (Hierarchy.defect_of_descending hlineage).of_known hn

/-- Two environments that inherit from each other, and a project with a parent that does not exist. -/
def brokenShop : Inventory :=
  .ofRecords [.environment { name := "live", parents := ["test"] },
    .environment { name := "test", parents := ["live"] }, .project { name := "shop", parents := ["ghost"] }]

theorem brokenShop_decides :
    brokenShop.problems = [(.environment, .cyclic ["live", "test", "live"]),
      (.environment, .cyclic ["test", "live", "test"]), (.project, .missingNode "ghost" (some "shop"))] ∧
    brokenShop.isValid ≠ true ∧
    (brokenShop.hierarchy .environment).ParentCycle ["live", "test", "live"] ∧
    (brokenShop.hierarchy .project).IsParent "ghost" "shop" ∧ "ghost" ∉ brokenShop.names .project := by
  have hproblems : brokenShop.problems = [(.environment, .cyclic ["live", "test", "live"]),
      (.environment, .cyclic ["test", "live", "test"]), (.project, .missingNode "ghost" (some "shop"))] := by cbv
  obtain ⟨hvalid, -, hgenuine⟩ := isValid_decides brokenShop
  have hcycle := hgenuine .environment (.cyclic ["live", "test", "live"]) (by simp [hproblems])
  have hghost := hgenuine .project (.missingNode "ghost" (some "shop")) (by simp [hproblems])
  obtain ⟨_, _, hm, -⟩ | ⟨cycle, hc, hcloses⟩ := hcycle
  · cases hm
  obtain ⟨m, c, hm, -, hdeclared, hunknown⟩ | ⟨_, hc', -⟩ := hghost
  · cases hc
    cases hm
    have hinvalid := fun hv => hunknown ((hvalid.1 hv .project).1 "shop" "ghost" hdeclared)
    exact ⟨hproblems, hinvalid, hcloses, hdeclared, hunknown⟩
  · cases hc'

end Inventory

end DeployInventory
