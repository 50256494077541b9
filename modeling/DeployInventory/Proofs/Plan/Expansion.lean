import DeployInventory.Plan.Expansion
/-!
# Proofs.Plan.Expansion — the entries of a plan

An entry holds the item that stands at its position in the plan, bound to one of the item's projects or, where there are
none, to none (`DeployItem.mem_expand_iff`). So every item of a plan has an entry (`exists_mem_expand`).
-/
namespace DeployInventory

variable {engine : SearchEngine} {inv : Inventory} {e : ExpandedItem} {item : DeployItem} {index : Nat}

/-- **The entries of an item**: one for each of its projects, or one without a project. -/
theorem DeployItem.mem_expand_iff : e ∈ item.expand engine inv index ↔
    e.index = index ∧ e.item = item ∧
      ((e.project = none ∧ item.projects engine inv = []) ∨ ∃ n ∈ item.projects engine inv, e.project = some n) := by
  obtain ⟨i, project, content⟩ := e
  unfold expand
  cases item.projects engine inv with
  | nil => simp [and_comm]
  | cons n names =>
    simp only [List.mem_map, ExpandedItem.mk.injEq]
    constructor
    · rintro ⟨m, hm, rfl, rfl, rfl⟩
      exact ⟨rfl, rfl, .inr ⟨m, hm, rfl⟩⟩
    · rintro ⟨rfl, rfl, ⟨-, hnil⟩ | ⟨m, hm, rfl⟩⟩
      · cases hnil
      · exact ⟨m, hm, rfl, rfl, rfl⟩

namespace DeployPlan

variable {p : DeployPlan}

theorem mem_expand_iff : e ∈ p.expand engine inv ↔
    p.items[e.index]? = some e.item ∧ e ∈ e.item.expand engine inv e.index := by
  unfold expand
  rw [List.mem_flatMap]
  constructor
  · rintro ⟨⟨item, index⟩, hitem, he⟩
    obtain ⟨rfl, rfl, -⟩ := DeployItem.mem_expand_iff.1 he
    exact ⟨List.mem_zipIdx_iff_getElem?.1 hitem, he⟩
  · rintro ⟨hitem, he⟩
    exact ⟨(e.item, e.index), List.mem_zipIdx_iff_getElem?.2 hitem, he⟩

/-- **No item of a plan is lost.** -/
theorem exists_mem_expand (h : p.items[index]? = some item) :
    ∃ e ∈ p.expand engine inv, e.index = index ∧ e.item = item := by
  have hentry : ∃ project, (⟨index, project, item⟩ : ExpandedItem) ∈ item.expand engine inv index := by
    cases hnames : item.projects engine inv with
    | nil => exact ⟨none, DeployItem.mem_expand_iff.2 ⟨rfl, rfl, .inl ⟨rfl, hnames⟩⟩⟩
    | cons n names => exact ⟨some n, DeployItem.mem_expand_iff.2 ⟨rfl, rfl, .inr ⟨n, by simp [hnames], rfl⟩⟩⟩
  obtain ⟨project, hentry⟩ := hentry
  exact ⟨_, mem_expand_iff.2 ⟨h, hentry⟩, rfl, rfl⟩

end DeployPlan

end DeployInventory
