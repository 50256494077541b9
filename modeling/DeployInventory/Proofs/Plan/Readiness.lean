import DeployInventory.Proofs.Plan.Dependencies
import Mathlib.Data.List.Find
import Mathlib.Data.Set.Finite.List
import Mathlib.Order.WellFounded
/-!
# Proofs.Plan.Readiness — the next project, and plans without an order

After some projects are taken, one is ready when all that it waits for are taken, and the one that `emit` takes next is
the first of the ready ones (`Emits.isNext`). When none is ready although some are left, each of those left waits for
another one left, so the arcs have a cycle (`exists_cycle`): a plan has an order exactly when they have none
(`exists_dependencyOrder_iff`).
-/
namespace DeployInventory

open DependencyNode

/-- **An arc of a plan**: a project lists another one of the plan, or itself, as a dependency. -/
def IsArc (items : List ExpandedItem) (d p : String) : Prop := IsDependency items d p ∧ d ∈ projects items

/-- **Whether a project of a plan can be taken**: it is not taken yet, and all that it waits for are. -/
structure IsReady (items : List ExpandedItem) (taken : List String) (p : String) : Prop where
  listed : p ∈ projects items
  fresh : p ∉ taken
  freed : ∀ d, IsArc items d p → d ∈ taken

/-- **The ready project that the plan names first.** -/
structure IsNext (items : List ExpandedItem) (taken : List String) (p : String) : Prop where
  ready : IsReady items taken p
  earliest : ∀ q, IsReady items taken q → (projects items).idxOf p ≤ (projects items).idxOf q

/-- Without a cycle of arcs, one from a project to itself included. -/
def IsAcyclic (items : List ExpandedItem) : Prop := ∀ p, ¬ Relation.TransGen (IsArc items) p p

/-- In a finite set in which everything has a predecessor there is a cycle. -/
theorem exists_cycle {α : Type} [Finite α] [Nonempty α] {r : α → α → Prop} (hpred : ∀ a, ∃ b, r b a) :
    ∃ a, Relation.TransGen r a a := by
  by_contra hnone
  rw [not_exists] at hnone
  have : Std.Irrefl (Relation.TransGen r) := ⟨hnone⟩
  -- without a cycle the set has a first member, but that one has a predecessor too
  obtain ⟨m, -, hmin⟩ :=
    (Finite.wellFounded_of_trans_of_irrefl (Relation.TransGen r)).has_min Set.univ Set.univ_nonempty
  obtain ⟨b, hb⟩ := hpred m
  exact hmin b trivial (.single hb)

theorem idxOf_le_of_find? {f : String → Bool} {l : List String} {p q : String} (hp : l.find? f = some p) (hq : q ∈ l)
    (hfq : f q = true) : l.idxOf p ≤ l.idxOf q := by
  obtain ⟨hfp, before, after, rfl, hbefore⟩ := List.find?_eq_some_iff_append.1 hp
  have hnot : ∀ {n : String}, f n = true → n ∉ before := fun hn hmem => by
    have := hbefore _ hmem
    simp [hn] at this
  rw [List.idxOf_append_of_notMem (hnot hfp), List.idxOf_append_of_notMem (hnot hfq), List.idxOf_cons_self]
  exact Nat.add_le_add_left (Nat.zero_le _) _

namespace DependencyNode

/-- The node of a project. -/
def node (items : List ExpandedItem) (p : String) : DependencyNode :=
  ⟨p, (dependencies items p).filter ((projects items).contains ·)⟩

/-- The nodes left when some projects are taken. -/
def leftAfter (items : List ExpandedItem) (taken : List String) : List DependencyNode :=
  (ofItems items).filter (!taken.contains ·.project)

def isReady (items : List ExpandedItem) (taken : List String) (p : String) : Bool :=
  !taken.contains p && (node items p).waitsFor.all (taken.contains ·)

variable {items : List ExpandedItem} {d p : String} {left stuck : List DependencyNode} {taken done : List String}

theorem ofItems_eq_map_node : ofItems items = (projects items).map (node items) := rfl

theorem mem_waitsFor_node : d ∈ (node items p).waitsFor ↔ IsArc items d p := by
  show d ∈ (dependencies items p).filter ((projects items).contains ·) ↔ _
  rw [List.mem_filter, mem_dependencies, List.contains_iff_mem]
  rfl

theorem isReady_iff (hp : p ∈ projects items) : isReady items taken p = true ↔ IsReady items taken p := by
  unfold isReady
  simp only [Bool.and_eq_true, Bool.not_eq_true', List.contains_eq_mem, decide_eq_false_iff_not, List.all_eq_true,
    decide_eq_true_eq, mem_waitsFor_node]
  exact ⟨fun ⟨hfresh, hfreed⟩ => ⟨hp, hfresh, hfreed⟩, fun h => ⟨h.fresh, h.freed⟩⟩

theorem leftAfter_nil : leftAfter items [] = ofItems items := List.filter_eq_self.2 fun _ _ => rfl

theorem map_project_leftAfter :
    (leftAfter items taken).map (·.project) = (projects items).filter (!taken.contains ·) := by
  unfold leftAfter
  rw [← map_project_ofItems, List.filter_map]
  rfl

theorem nodup_ofItems : (ofItems items).Nodup := by
  refine List.Nodup.of_map (·.project) ?_
  rw [map_project_ofItems]
  exact nodup_distinct _

theorem project_inj {m n : DependencyNode} (hm : m ∈ ofItems items) (hn : n ∈ ofItems items)
    (h : m.project = n.project) : m = n := by
  rw [ofItems_eq_map_node] at hm hn
  obtain ⟨p, -, rfl⟩ := List.mem_map.1 hm
  obtain ⟨q, -, rfl⟩ := List.mem_map.1 hn
  exact congrArg (node items) h

theorem erase_leftAfter {n : DependencyNode} (hn : n ∈ ofItems items) :
    (leftAfter items taken).erase n = leftAfter items (taken ++ [n.project]) := by
  unfold leftAfter
  rw [(nodup_ofItems.filter _).erase_eq_filter, List.filter_filter]
  refine List.filter_congr fun m hm => ?_
  have hproject : (m != n) = (m.project != n.project) := by
    rw [Bool.eq_iff_iff, bne_iff_ne, bne_iff_ne]
    exact not_congr ⟨fun h => h ▸ rfl, project_inj hm hn⟩
  rw [hproject, List.contains_append, List.contains_cons, List.contains_nil, Bool.or_false, Bool.not_or, Bool.and_comm]
  rfl

theorem isAmong_leftAfter (hd : d ∈ projects items) : isAmong d (leftAfter items taken) = !taken.contains d := by
  rw [Bool.eq_iff_iff, isAmong_iff, map_project_leftAfter, List.mem_filter]
  exact and_iff_right hd

/-- **What `emit` takes next**: the first project that is ready. -/
theorem ready?_leftAfter (taken : List String) :
    ready? (leftAfter items taken) = ((projects items).find? (isReady items taken)).map (node items) := by
  have hfreed : ∀ p, (node items p).waitsFor.all (!isAmong · (leftAfter items taken)) =
      (node items p).waitsFor.all (taken.contains ·) := fun p => by
    rw [Bool.eq_iff_iff, List.all_eq_true, List.all_eq_true]
    refine forall₂_congr fun d hd => ?_
    rw [isAmong_leftAfter (mem_waitsFor_node.1 hd).2, Bool.not_not]
  unfold ready?
  conv_lhs => arg 2; rw [leftAfter, ofItems_eq_map_node]
  rw [List.find?_filter, List.find?_map]
  refine congrArg _ (List.find?_congr fun p _ => ?_)
  simp only [Function.comp_apply, hfreed p, isReady, Bool.decide_and, Bool.decide_eq_true]
  rfl

theorem isNext_of_find? (h : (projects items).find? (isReady items taken) = some p) : IsNext items taken p :=
  ⟨(isReady_iff (List.mem_of_find?_eq_some h)).1 (List.find?_some h), fun _ hq =>
    idxOf_le_of_find? h hq.listed ((isReady_iff hq.listed).2 hq)⟩

/-- **Every project is taken as the first of those that are ready.** -/
theorem Emits.isNext (h : Emits left taken stuck) : ∀ (done : List String), left = leftAfter items done →
    ∀ {before after : List String} {p : String}, taken = before ++ p :: after → IsNext items (done ++ before) p := by
  induction h with
  | stop _ => exact fun _ _ before after p htaken => absurd htaken (by simp)
  | @take left stuck n taken hready _ ih =>
    rintro done rfl before after p htaken
    rw [ready?_leftAfter, Option.map_eq_some_iff] at hready
    obtain ⟨q, hq, rfl⟩ := hready
    have hnode : node items q ∈ ofItems items := List.mem_map_of_mem (List.mem_of_find?_eq_some hq)
    cases before with
    | nil =>
      obtain ⟨rfl, -⟩ := List.cons.inj htaken
      rw [List.append_nil]
      exact isNext_of_find? hq
    | cons b before =>
      obtain ⟨rfl, hrest⟩ := List.cons.inj htaken
      have hnext := ih _ (erase_leftAfter hnode) hrest
      rwa [List.append_assoc] at hnext

theorem Emits.eq_leftAfter (h : Emits left taken stuck) : ∀ (done : List String), left = leftAfter items done →
    stuck = leftAfter items (done ++ taken) ∧ ready? stuck = none := by
  induction h with
  | stop hnone =>
    rintro done rfl
    rw [List.append_nil]
    exact ⟨rfl, hnone⟩
  | @take left stuck n taken hready _ ih =>
    rintro done rfl
    have hn : n ∈ ofItems items := (List.mem_filter.1 (mem_of_ready? hready)).1
    obtain ⟨hstuck, hnone⟩ := ih _ (erase_leftAfter hn)
    refine ⟨?_, hnone⟩
    rwa [List.append_assoc] at hstuck

/-- Nodes none of which is ready wait for each other. -/
theorem exists_arc_of_ready?_eq_none (hnone : ready? (leftAfter items taken) = none) (hp : p ∈ projects items)
    (hfresh : p ∉ taken) : ∃ d, d ∈ projects items ∧ d ∉ taken ∧ IsArc items d p := by
  rw [ready?_leftAfter, Option.map_eq_none_iff, List.find?_eq_none] at hnone
  by_contra hall
  refine hnone p hp ((isReady_iff hp).2 ⟨hp, hfresh, fun d hd => ?_⟩)
  by_contra hnot
  exact hall ⟨d, hd.2, hnot, hd⟩

end DependencyNode

variable {items : List ExpandedItem} {order : List String} {d p : String}

theorem isNext_of_dependencyOrder (h : dependencyOrder items = .ok order) {before after : List String}
    (horder : order = before ++ p :: after) : IsNext items before p :=
  (emits_of_dependencyOrder h).isNext [] leftAfter_nil.symm horder

/-- **In a plan without an order some arcs form a cycle.** -/
theorem exists_dependencyOrder_of_isAcyclic (hacyclic : IsAcyclic items) :
    ∃ order, dependencyOrder items = .ok order := by
  unfold dependencyOrder
  obtain ⟨hstuck, hnone⟩ := (emits_emit (ofItems items)).eq_leftAfter [] leftAfter_nil.symm
  split
  · exact ⟨_, rfl⟩
  · rename_i taken n stuck hemit
    simp only [hemit, List.nil_append] at hstuck hnone
    have hmem : ∀ p, p ∈ (n :: stuck).map (·.project) ↔ p ∈ projects items ∧ p ∉ taken := fun p => by
      rw [hstuck, map_project_leftAfter]
      simp
    have : Finite {p // p ∈ (n :: stuck).map (·.project)} := (List.finite_toSet _).to_subtype
    have : Nonempty {p // p ∈ (n :: stuck).map (·.project)} := ⟨n.project, List.mem_cons_self⟩
    obtain ⟨p, hcycle⟩ := exists_cycle (r := fun d p : {p // p ∈ (n :: stuck).map (·.project)} => IsArc items d.1 p.1)
      fun p => by
        obtain ⟨hp, hfresh⟩ := (hmem p.1).1 p.2
        obtain ⟨d, hd, hdfresh, harc⟩ := exists_arc_of_ready?_eq_none (hstuck ▸ hnone) hp hfresh
        exact ⟨⟨d, (hmem d).2 ⟨hd, hdfresh⟩⟩, harc⟩
    exact absurd (hcycle.lift Subtype.val fun _ _ harc => harc) (hacyclic p.1)

theorem isAcyclic_of_dependencyOrder (h : dependencyOrder items = .ok order) : IsAcyclic items := by
  intro p hcycle
  obtain ⟨_, harc, -⟩ := Relation.TransGen.head'_iff.1 hcycle
  have hrequired : IsRequired items p p := hcycle.lift id fun _ _ harc => harc.1
  have hpp := (nodup_of_dependencyOrder h).sublist (sublist_of_isRequired h harc.2 hrequired)
  simp at hpp

/-- **A plan has an order exactly when its arcs form no cycle.** -/
theorem exists_dependencyOrder_iff : (∃ order, dependencyOrder items = .ok order) ↔ IsAcyclic items :=
  ⟨fun ⟨_, h⟩ => isAcyclic_of_dependencyOrder h, exists_dependencyOrder_of_isAcyclic⟩

end DeployInventory
