import DeployInventory.Lineage
import Mathlib.Logic.Relation
/-!
# Proofs.Lineage.Ancestry — parents, ancestors and the nodes that have a lineage

A node is sound when everything that it inherits from exists and none of it inherits from itself; what a sound node
inherits from is sound (`Sound.parent`).
-/
namespace DeployInventory
namespace Hierarchy

def IsParent (h : Hierarchy) (p n : String) : Prop := ∃ ps, h.find? n = some ps ∧ p ∈ ps

def IsAncestor (h : Hierarchy) : String → String → Prop := Relation.TransGen h.IsParent

/-- A node itself or one of its transitive parents: the names that can be reached from it. -/
def AtOrAbove (h : Hierarchy) : String → String → Prop := Relation.ReflTransGen h.IsParent

/-- **All that can be reached from a node exists, and none of it is a transitive parent of itself.** -/
structure Sound (h : Hierarchy) (start : String) : Prop where
  known : ∀ n, h.AtOrAbove n start → n ∈ h.names
  acyclic : ∀ n, h.AtOrAbove n start → ¬ h.IsAncestor n n

theorem atOrAbove_iff {h : Hierarchy} {a n : String} : h.AtOrAbove a n ↔ a = n ∨ h.IsAncestor a n := by
  unfold AtOrAbove IsAncestor
  rw [Relation.reflTransGen_iff_eq_or_transGen]
  exact or_congr_left eq_comm

theorem isAncestor_iff {h : Hierarchy} {a n : String} :
    h.IsAncestor a n ↔ ∃ p, h.IsParent p n ∧ h.AtOrAbove a p := by
  constructor
  · intro ha
    obtain ⟨p, hap, hpn⟩ := Relation.TransGen.tail'_iff.1 ha
    exact ⟨p, hpn, hap⟩
  · rintro ⟨p, hpn, hap⟩
    exact Relation.TransGen.tail' hap hpn

theorem IsParent.mem_names {h : Hierarchy} {p n : String} (hp : h.IsParent p n) : n ∈ h.names := by
  obtain ⟨ps, hn, -⟩ := hp
  exact NameMap.mem_names.2 ⟨ps, hn⟩

theorem isParent_iff {h : Hierarchy} {p n : String} {parents : List String} (hn : h.find? n = some parents) :
    h.IsParent p n ↔ p ∈ parents := by
  constructor
  · rintro ⟨ps, hps, hp⟩
    rwa [Option.some.inj (hn.symm.trans hps)]
  · exact fun hp => ⟨parents, hn, hp⟩

theorem atOrAbove_iff_of_find? {h : Hierarchy} {a n : String} {parents : List String}
    (hn : h.find? n = some parents) : h.AtOrAbove a n ↔ a = n ∨ ∃ p ∈ parents, h.AtOrAbove a p := by
  rw [atOrAbove_iff, isAncestor_iff]
  simp only [isParent_iff hn]

theorem AtOrAbove.of_parent {h : Hierarchy} {a p n : String} (ha : h.AtOrAbove a p) (hp : h.IsParent p n) :
    h.AtOrAbove a n :=
  Relation.ReflTransGen.tail ha hp

theorem Sound.parent {h : Hierarchy} {p n : String} (hs : h.Sound n) (hp : h.IsParent p n) : h.Sound p :=
  ⟨fun a ha => hs.known a (ha.of_parent hp), fun a ha => hs.acyclic a (ha.of_parent hp)⟩

theorem Sound.of_atOrAbove {h : Hierarchy} {a n : String} (hs : h.Sound n) (ha : h.AtOrAbove a n) : h.Sound a :=
  ⟨fun b hb => hs.known b (hb.trans ha), fun b hb => hs.acyclic b (hb.trans ha)⟩

theorem Sound.not_atOrAbove_parent {h : Hierarchy} {p n : String} (hs : h.Sound n) (hp : h.IsParent p n) :
    ¬ h.AtOrAbove n p :=
  fun ha => hs.acyclic n .refl (isAncestor_iff.2 ⟨p, hp, ha⟩)

theorem Sound.find? {h : Hierarchy} {n : String} (hs : h.Sound n) : ∃ ps, h.find? n = some ps :=
  NameMap.mem_names.1 (hs.known n .refl)

end Hierarchy
end DeployInventory
