import DeployInventory.Plan.Dependencies
import DeployInventory.Proofs.Before
import Mathlib.Logic.Relation
/-!
# Proofs.Plan.Dependencies — the order of a plan's projects

`Emits` has one rule for each way in which `emit` goes on. It takes every node once or leaves it (`Emits.perm`) and
takes none before what it waits for (`Emits.sublist_of_waitsFor`). So in an order of dependencies a project stands
after all that it requires, directly or through others (`sublist_of_requires`).
-/
namespace DeployInventory

/-- A project that an item of another project lists. -/
def IsDependency (items : List ExpandedItem) (d p : String) : Prop :=
  ∃ e ∈ items, e.project = some p ∧ d ∈ e.item.dependsOn

/-- **A project that another one needs**, directly or through the dependencies of others. -/
def IsRequired (items : List ExpandedItem) : String → String → Prop := Relation.TransGen (IsDependency items)

namespace DependencyNode

theorem mem_distinct {n : String} : ∀ {l : List String}, n ∈ distinct l ↔ n ∈ l
  | [] => by simp [distinct]
  | m :: rest => by
    rw [distinct, List.mem_cons, List.mem_filter, mem_distinct, List.mem_cons]
    by_cases hn : n = m
    · simp [hn]
    · simp [hn]

theorem nodup_distinct : ∀ l : List String, (distinct l).Nodup
  | [] => List.nodup_nil
  | m :: rest => List.nodup_cons.2 ⟨by simp, (nodup_distinct rest).filter _⟩

variable {items : List ExpandedItem} {d p : String} {left stuck nodes : List DependencyNode} {taken : List String}

theorem mem_projects : p ∈ projects items ↔ ∃ e ∈ items, e.project = some p := by
  unfold projects
  rw [mem_distinct, List.mem_filterMap]

theorem mem_dependencies : d ∈ dependencies items p ↔ IsDependency items d p := by
  unfold dependencies IsDependency
  rw [mem_distinct, List.mem_flatMap]
  simp only [List.mem_filter, beq_iff_eq, and_assoc]

theorem map_project_ofItems : (ofItems items).map (·.project) = projects items := by
  unfold ofItems
  rw [List.map_map]
  exact List.map_id _

theorem exists_mem_ofItems (hd : d ∈ projects items) (hdp : IsDependency items d p) :
    ∃ n ∈ ofItems items, n.project = p ∧ d ∈ n.waitsFor := by
  obtain ⟨e, he, hp, _⟩ := id hdp
  refine ⟨_, List.mem_map.2 ⟨p, mem_projects.2 ⟨e, he, hp⟩, rfl⟩, rfl, ?_⟩
  exact List.mem_filter.2 ⟨mem_dependencies.2 hdp, by simpa using hd⟩

theorem isAmong_iff : isAmong p nodes = true ↔ p ∈ nodes.map (·.project) := by
  unfold isAmong
  simp

/-- **Ready nodes taken one after the other**: their projects, and the nodes left when none is ready. -/
inductive Emits : (left : List DependencyNode) → (taken : List String) → (stuck : List DependencyNode) → Prop where
  | stop {left : List DependencyNode} (hnone : ready? left = none) : Emits left [] left
  | take {left stuck : List DependencyNode} {n : DependencyNode} {taken : List String} (hready : ready? left = some n)
      (next : Emits (left.erase n) taken stuck) : Emits left (n.project :: taken) stuck

theorem emits_emit (left : List DependencyNode) : Emits left (emit left).1 (emit left).2 := by
  fun_induction emit left with
  | case1 left hnone => exact .stop hnone
  | case2 left n hready _ taken stuck hrest ih =>
    rw [hrest] at ih
    exact .take hready ih

theorem mem_of_ready? {n : DependencyNode} (h : ready? left = some n) : n ∈ left := List.mem_of_find?_eq_some h

theorem not_mem_of_ready? {n : DependencyNode} (h : ready? left = some n) (hd : d ∈ n.waitsFor) :
    d ∉ left.map (·.project) := by
  have hall := List.find?_some h
  rw [List.all_eq_true] at hall
  rw [← isAmong_iff]
  simpa using hall d hd

/-- **Every node is taken or left, once.** -/
theorem Emits.perm (h : Emits left taken stuck) :
    (left.map (·.project)).Perm (taken ++ stuck.map (·.project)) := by
  induction h with
  | stop _ => exact .refl _
  | take hready _ ih => exact ((List.perm_cons_erase (mem_of_ready? hready)).map _).trans (ih.cons _)

/-- **A node is taken after those that it waits for.** -/
theorem Emits.sublist_of_waitsFor (h : Emits left taken stuck) (hnd : (left.map (·.project)).Nodup) :
    ∀ {n : DependencyNode}, n ∈ left → n.project ∈ taken → d ∈ n.waitsFor → d ∈ left.map (·.project) →
      [d, n.project].Sublist taken := by
  induction h with
  | stop _ => exact fun _ ht => absurd ht List.not_mem_nil
  | @take left stuck m taken hready next ih =>
    intro n hn ht hd hleft
    have hperm := (List.perm_cons_erase (mem_of_ready? hready)).map (·.project)
    rw [hperm.nodup_iff, List.map_cons, List.nodup_cons] at hnd
    have hne : n ≠ m := fun hnm => not_mem_of_ready? hready (hnm ▸ hd) hleft
    have hrest : n ∈ left.erase m := (List.mem_erase_of_ne hne).2 hn
    have htaken : n.project ∈ taken := by
      rcases List.mem_cons.1 ht with hproject | ht
      · exact absurd (List.mem_map.2 ⟨n, hrest, hproject⟩) hnd.1
      · exact ht
    rcases List.mem_cons.1 (hperm.mem_iff.1 hleft) with rfl | hleft
    · exact List.Sublist.cons_cons _ (List.singleton_sublist.2 htaken)
    · exact (ih hnd.2 hrest htaken hd hleft).cons _

end DependencyNode

variable {items : List ExpandedItem} {order : List String} {d p : String}

open DependencyNode

theorem emits_of_dependencyOrder (h : dependencyOrder items = .ok order) : Emits (ofItems items) order [] := by
  have hemits := emits_emit (ofItems items)
  unfold dependencyOrder at h
  split at h
  · rename_i taken hemit
    cases h
    rwa [hemit] at hemits
  · cases h

theorem perm_of_dependencyOrder (h : dependencyOrder items = .ok order) : (projects items).Perm order := by
  have hperm := (emits_of_dependencyOrder h).perm
  rwa [map_project_ofItems, List.map_nil, List.append_nil] at hperm

theorem nodup_of_dependencyOrder (h : dependencyOrder items = .ok order) : order.Nodup :=
  (perm_of_dependencyOrder h).nodup_iff.1 (nodup_distinct _)

theorem sublist_of_isDependency (h : dependencyOrder items = .ok order) (hd : d ∈ projects items)
    (hdp : IsDependency items d p) : [d, p].Sublist order := by
  obtain ⟨n, hn, rfl, hwaits⟩ := exists_mem_ofItems hd hdp
  have hproject : n.project ∈ projects items := by
    rw [← map_project_ofItems]
    exact List.mem_map.2 ⟨n, hn, rfl⟩
  have htaken := (perm_of_dependencyOrder h).mem_iff.1 hproject
  refine (emits_of_dependencyOrder h).sublist_of_waitsFor ?_ hn htaken hwaits ?_
  · rw [map_project_ofItems]
    exact nodup_distinct _
  · rwa [map_project_ofItems]

/-- **A project of a plan stands before all that require it.** -/
theorem sublist_of_isRequired (h : dependencyOrder items = .ok order) (hd : d ∈ projects items)
    (hdp : IsRequired items d p) : [d, p].Sublist order := by
  induction hdp with
  | single hdp => exact sublist_of_isDependency h hd hdp
  | @tail q p _ hqp ih =>
    have hq : q ∈ projects items := (perm_of_dependencyOrder h).mem_iff.2 (ih.subset (by simp))
    exact pair_sublist_trans (nodup_of_dependencyOrder h) ih (sublist_of_isDependency h hq hqp)

end DeployInventory
