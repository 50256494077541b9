import DeployInventory.Proofs.Before
import DeployInventory.Proofs.Lineage.Ancestry
import Mathlib.Data.List.Chain
/-!
# Proofs.Lineage.Path — paths of parents, and the cycles that they close

A path runs from a node down to the start, through nodes each of which declares the one before it. One that comes back
to one of its nodes closes a cycle, which `cycleOf` lists from that node up to it again (`ParentPath.parentCycle`).
-/
namespace DeployInventory
namespace Hierarchy

/-- **A path of parents to a start**: every node is a declared parent of the one behind it, the start is the last. -/
structure ParentPath (h : Hierarchy) (start : String) (path : List String) : Prop where
  chain : path.IsChain h.IsParent
  last : ∀ n ∈ path.getLast?, n = start

/-- **A cycle of parents**, read upwards: every node declares the next one, the last is the first again, and no other
comes twice. -/
structure ParentCycle (h : Hierarchy) (cycle : List String) : Prop where
  two_le : 2 ≤ cycle.length
  closed : cycle.getLast? = cycle.head?
  nodup : cycle.dropLast.Nodup
  declared : cycle.IsChain fun n p => h.IsParent p n

variable {h : Hierarchy} {start n p : String} {path : List String}

namespace ParentPath

theorem singleton : h.ParentPath start [start] := ⟨.singleton start, by simp⟩

theorem cons (hpath : h.ParentPath start (n :: path)) (hp : h.IsParent p n) : h.ParentPath start (p :: n :: path) :=
  ⟨.cons_cons hp hpath.chain, by simpa [List.getLast?_cons_cons] using hpath.last⟩

theorem tail (hpath : h.ParentPath start (n :: path)) : h.ParentPath start path := by
  refine ⟨hpath.chain.tail, fun m hm => hpath.last m ?_⟩
  cases path with
  | nil => cases hm
  | cons k path => rwa [List.getLast?_cons_cons]

theorem atOrAbove (hpath : h.ParentPath start path) : ∀ n ∈ path, h.AtOrAbove n start := by
  refine hpath.chain.backwards_induction (h.AtOrAbove · start) path (fun _ _ hp ha => .head hp ha) fun hne => ?_
  rw [hpath.last _ (List.getLast?_eq_some_getLast hne)]
  exact .refl

theorem atOrAbove_of_mem (hpath : h.ParentPath start (n :: path)) : ∀ m ∈ path, h.AtOrAbove n m :=
  hpath.chain.cons_induction (h.AtOrAbove n) path (fun _ _ hp ha => ha.of_parent hp) .refl

end ParentPath

/-- The cycle of a path that comes back to the node behind `inner`. -/
theorem cycleOf_append {inner below : List String} {back : String} (hback : back ∉ inner) :
    cycleOf (inner ++ back :: below) back = back :: inner.reverse ++ [back] := by
  rw [cycleOf, takeWhile_bne_append hback]

theorem mem_of_mem_cycleOf {back m : String} (hback : back ∈ path) (hm : m ∈ cycleOf path back) : m ∈ path := by
  simp only [cycleOf, List.mem_append, List.mem_cons, List.mem_reverse, List.not_mem_nil, or_false] at hm
  rcases hm with (rfl | hm) | rfl
  · exact hback
  · exact (List.takeWhile_sublist _).subset hm
  · exact hback

/-- **A path that comes back to one of its nodes closes a cycle.** -/
theorem ParentPath.parentCycle (hpath : h.ParentPath start (p :: path)) (hnd : path.Nodup) (hp : p ∈ path) :
    h.ParentCycle (cycleOf path p) := by
  obtain ⟨inner, below, rfl, hinner⟩ := List.eq_append_cons_of_mem hp
  rw [cycleOf_append hinner]
  refine ⟨by simp, List.getLast?_concat, ?_, ?_⟩
  · rw [List.dropLast_concat, List.nodup_cons, List.mem_reverse, (List.reverse_perm inner).nodup_iff]
    exact ⟨hinner, (List.nodup_append.1 hnd).1⟩
  · -- read upwards, the cycle is the part of the path between the two places of the node, reversed
    have hchain : (p :: inner ++ [p] ++ below).IsChain h.IsParent := by simpa using hpath.chain
    have hreverse : p :: inner.reverse ++ [p] = (p :: inner ++ [p]).reverse := by simp
    rw [hreverse, List.isChain_reverse]
    exact hchain.left_of_append

end Hierarchy
end DeployInventory
