import DeployInventory.EnvironmentQuery
import DeployInventory.Proofs.Lineage.Linearization
/-!
# Proofs.Lineage.Locality — what a walk through parents depends on

A walk looks at its start and at what can be reached from there. Hierarchies that agree on that give the same lineage,
the same error, the same nearest attribute and the same answer to every query, whatever else they hold
(`AgreeAbove.walk`).
-/
namespace DeployInventory
namespace Hierarchy

/-- **Hierarchies that declare the same for a node and for all that it inherits from**, as the first one tells it. -/
def AgreeAbove (h h' : Hierarchy) (n : String) : Prop := ∀ a, h.AtOrAbove a n → h'.find? a = h.find? a

variable {h h' : Hierarchy} {n : String}

theorem AgreeAbove.parent {p : String} (hagree : h.AgreeAbove h' n) (hp : h.IsParent p n) : h.AgreeAbove h' p :=
  fun a ha => hagree a (ha.of_parent hp)

theorem AgreeAbove.atOrAbove (hagree : h.AgreeAbove h' n) {a : String} (ha : h'.AtOrAbove a n) : h.AtOrAbove a n := by
  induction ha using Relation.ReflTransGen.head_induction_on with
  | refl => exact .refl
  | head hp _ ih =>
    obtain ⟨ps, hps, hmem⟩ := hp
    exact .head ⟨ps, (hagree _ ih).symm.trans hps, hmem⟩ ih

/-- **A walk through parents sees nothing but what can be reached from them**, and asks of nothing else whether it
stops the walk. -/
theorem walkParents_congr {α : Type} {stop stop' : String → Option α} (child : String)
    (path parents left : List String) (hagree : ∀ p ∈ parents, h.AgreeAbove h' p)
    (hstops : ∀ p ∈ parents, ∀ a, h.AtOrAbove a p → stop' a = stop a) :
    walkParents h' stop' child path parents left = walkParents h stop child path parents left := by
  fun_induction walkParents h stop child path parents left with
  | case1 child path left => rw [walkParents]
  | case2 child path p rest left hl ih =>
    rw [walkParents, if_pos hl]
    exact ih (List.forall_mem_cons.1 hagree).2 (List.forall_mem_cons.1 hstops).2
  | case3 child path p rest left hl hp => rw [walkParents, if_neg hl, dif_pos hp]
  | case4 child path p rest left hl hp hn =>
    have hn' := (hagree p List.mem_cons_self p .refl).trans hn
    grind [walkParents]
  | case5 child path p rest left hl hp ps hn _ a hstop =>
    have hn' := (hagree p List.mem_cons_self p .refl).trans hn
    have hstop' := (hstops p List.mem_cons_self p .refl).trans hstop
    grind [walkParents]
  | case6 child path p rest left hl hp ps hn _ hstop e he ih =>
    have hhead := hagree p List.mem_cons_self
    have hn' := (hhead p .refl).trans hn
    have hstop' := (hstops p List.mem_cons_self p .refl).trans hstop
    have hup := (ih (fun q hq => hhead.parent ⟨ps, hn, hq⟩) fun q hq a ha =>
      hstops p List.mem_cons_self a (ha.of_parent ⟨ps, hn, hq⟩)).trans he
    grind [walkParents]
  | case7 child path p rest left hl hp ps hn _ hstop a ha ih =>
    have hhead := hagree p List.mem_cons_self
    have hn' := (hhead p .refl).trans hn
    have hstop' := (hstops p List.mem_cons_self p .refl).trans hstop
    have hup := (ih (fun q hq => hhead.parent ⟨ps, hn, hq⟩) fun q hq a ha =>
      hstops p List.mem_cons_self a (ha.of_parent ⟨ps, hn, hq⟩)).trans ha
    grind [walkParents]
  | case8 child path p rest left hl hp ps hn _ hstop above habove ihUp ihNext =>
    obtain ⟨hhead, hrest⟩ := List.forall_mem_cons.1 hagree
    have hn' := (hhead p .refl).trans hn
    have hstop' := (hstops p List.mem_cons_self p .refl).trans hstop
    have hup := (ihUp (fun q hq => hhead.parent ⟨ps, hn, hq⟩) fun q hq a ha =>
      hstops p List.mem_cons_self a (ha.of_parent ⟨ps, hn, hq⟩)).trans habove
    have hnext := ihNext hrest (List.forall_mem_cons.1 hstops).2
    grind [walkParents]

namespace AgreeAbove

variable (hagree : h.AgreeAbove h' n)
include hagree

theorem walk {α : Type} {stop stop' : String → Option α} (hstops : ∀ a, h.AtOrAbove a n → stop' a = stop a) :
    Hierarchy.walk h' stop' n = Hierarchy.walk h stop n := by
  unfold Hierarchy.walk
  rw [hagree n .refl, hstops n .refl]
  cases hn : h.find? n with
  | none => rfl
  | some ps =>
    have hparents := walkParents_congr n [n] ps [] (fun p hp => hagree.parent ⟨ps, hn, hp⟩) fun p hp a ha =>
      hstops a (ha.of_parent ⟨ps, hn, hp⟩)
    simp only [hparents]

/-- Of an attribute, only what the node and those that it inherits from have counts. -/
theorem nearest {α : Type} {own own' : String → Option α} (howns : ∀ a, h.AtOrAbove a n → own' a = own a) :
    h'.nearest own' n = h.nearest own n := by
  unfold Hierarchy.nearest
  rw [hagree.walk howns]

theorem ancestors : h'.ancestors n = h.ancestors n := by
  unfold Hierarchy.ancestors
  rw [hagree.walk fun _ _ => rfl]

theorem descending : h'.descending n = h.descending n := by
  unfold Hierarchy.descending ascending
  rw [hagree.ancestors]

theorem isAncestor (a : String) : h'.isAncestor a n = h.isAncestor a n := by
  unfold Hierarchy.isAncestor descendingParents
  rw [hagree.ancestors]

theorem includes (q : EnvironmentQuery) : q.includes h' n = q.includes h n := by
  unfold EnvironmentQuery.includes
  rw [hagree.isAncestor]

end AgreeAbove

end Hierarchy
end DeployInventory
