import DeployInventory.Inventory.Validation
import DeployInventory.Proofs.Lineage.Linearization
/-!
# Proofs.Inventory.Validity — what validation establishes

An inventory without problems is one in which every node of every kind is sound (`isValid_iff`): what it inherits from
exists, and it does not inherit from itself.
-/
namespace DeployInventory

theorem errorOf?_eq_none_iff {ε α : Type} {x : Except ε α} : errorOf? x = none ↔ ∃ a, x = .ok a := by
  cases x with
  | error e => simp [errorOf?]
  | ok a => simp [errorOf?]

theorem NodeKind.mem_all (kind : NodeKind) : kind ∈ NodeKind.all := by
  cases kind <;> decide

namespace Inventory

/-- **Every node of every kind is sound.** -/
def Linearizes (inv : Inventory) : Prop := ∀ kind, ∀ n ∈ inv.names kind, (inv.hierarchy kind).Sound n

variable {inv : Inventory} {kind : NodeKind}

theorem mem_addProblem {problems : List LineageError} {e f : LineageError} :
    f ∈ addProblem problems e ↔ f ∈ problems ∨ f = e := by
  unfold addProblem
  split
  · rename_i he
    constructor
    · exact .inl
    · rintro (hf | rfl)
      · exact hf
      · exact he
  · simp

theorem mem_foldl_addProblem {f : LineageError} : ∀ {found problems : List LineageError},
    f ∈ found.foldl addProblem problems ↔ f ∈ problems ∨ f ∈ found
  | [], problems => by simp
  | e :: found, problems => by
    rw [List.foldl_cons, mem_foldl_addProblem, mem_addProblem, List.mem_cons, or_assoc]

/-- The problems of a kind are the errors that its nodes run into. -/
theorem mem_problemsOf {e : LineageError} :
    e ∈ inv.problemsOf kind ↔ ∃ n ∈ inv.names kind, errorOf? (inv.lineage kind n) = some e := by
  unfold problemsOf
  rw [mem_foldl_addProblem]
  simp [List.mem_filterMap]

theorem problemsOf_eq_nil_iff :
    inv.problemsOf kind = [] ↔ ∀ n ∈ inv.names kind, (inv.hierarchy kind).Sound n := by
  simp only [List.eq_nil_iff_forall_not_mem, mem_problemsOf, not_exists, not_and]
  constructor
  · intro h n hn
    rw [← Hierarchy.exists_descending_iff, ← errorOf?_eq_none_iff]
    exact Option.eq_none_iff_forall_ne_some.2 fun e => h e n hn
  · intro h e n hn he
    obtain ⟨order, horder⟩ := Hierarchy.exists_descending_iff.2 (h n hn)
    rw [lineage, horder] at he
    cases he

/-- **An inventory is valid just when every node is sound.** -/
theorem isValid_iff : inv.isValid = true ↔ inv.Linearizes := by
  unfold isValid problems Linearizes
  rw [List.isEmpty_iff, List.flatMap_eq_nil_iff]
  simp only [List.map_eq_nil_iff, problemsOf_eq_nil_iff, NodeKind.mem_all, forall_const]

end Inventory

end DeployInventory
