import DeployInventory.Proofs.Lineage.Climb
import DeployInventory.Proofs.Lineage.Frames
/-!
# Proofs.Lineage.Linearization — what `descending` lists, and when

A node has a lineage exactly when it is sound. Its lineage read from the end is linear, so every ancestor stands once
and before all that inherit from it, and it is the list that the plain depth-first recursion makes (`postOrder`).
-/
namespace DeployInventory
namespace Hierarchy

/-- **The recursive listing in post-order**: a node listed already is passed over, else come its parents in the order of
their declaration, then the node. `depth` bounds the recursion. -/
def postOrder (h : Hierarchy) : (depth : Nat) → (listed : List String) → String → List String
  | 0, listed, _ => listed
  | depth + 1, listed, n =>
    if n ∈ listed then listed else ((h.find? n).getD []).foldl (postOrder h depth) listed ++ [n]

variable {h : Hierarchy} {node : String}

theorem postOrder_of_mem {listed : List String} (depth : Nat) (hn : node ∈ listed) :
    postOrder h depth listed node = listed := by
  cases depth with
  | zero => rfl
  | succ depth => rw [postOrder, if_pos hn]

/-- What a walk leaves is the recursive listing of the parents, once the recursion may go as deep as there are names
off the path. -/
theorem Climb.foldl_postOrder {path parents left done : List String} (hc : Climb h path parents left done) :
    ∀ depth, (unmet h.names path).length ≤ depth → parents.foldl (postOrder h depth) left.reverse = done.reverse := by
  induction hc with
  | nil => exact fun _ _ => rfl
  | seen hl _ ih =>
    intro depth hd
    rw [List.foldl_cons, postOrder_of_mem depth (List.mem_reverse.2 hl)]
    exact ih depth hd
  | enter hl hp known _ _ ihUp ihNext =>
    intro depth hd
    have hfewer := unmet_cons_lt (NameMap.mem_names.2 ⟨_, known⟩) hp
    cases depth with
    | zero => omega
    | succ depth =>
      rw [List.foldl_cons, postOrder, if_neg (by simpa using hl), known, Option.getD_some, ihUp depth (by omega),
        ← List.reverse_cons]
      exact ihNext (depth + 1) hd

theorem climb_of_ancestors {nodes : List String} (ha : h.ancestors node = .ok nodes) :
    ∃ ps, h.find? node = some ps ∧ Climb h [node] ps [] nodes := by
  unfold ancestors walk at ha
  cases hn : h.find? node with
  | none => simp [hn] at ha
  | some ps =>
    simp only [hn] at ha
    refine ⟨ps, rfl, ?_⟩
    split at ha
    · cases ha
    · rename_i a _
      exact a.elim
    · rename_i done hw
      cases ha
      exact climb_of_walkParents hw

theorem linear_of_ancestors {nodes : List String} (ha : h.ancestors node = .ok nodes) : Linear h (node :: nodes) := by
  obtain ⟨ps, hn, hc⟩ := climb_of_ancestors ha
  exact ⟨hc.avoids_path node (by simp) (by simp), ⟨ps, hn, hc.parents_subset⟩, hc.linear trivial⟩

theorem mem_of_ancestors {nodes : List String} (ha : h.ancestors node = .ok nodes) (n : String) :
    n ∈ nodes ↔ h.IsAncestor n node := by
  obtain ⟨ps, hn, hc⟩ := climb_of_ancestors ha
  constructor
  · intro hm
    rcases hc.mem_done n hm with hl | ⟨p, hp, hnp⟩
    · cases hl
    · exact isAncestor_iff.2 ⟨p, ⟨ps, hn, hp⟩, hnp⟩
  · intro hanc
    have hlin := linear_of_ancestors ha
    have hm := hlin.mem_of_atOrAbove List.mem_cons_self (atOrAbove_iff.2 (.inr hanc))
    rcases List.mem_cons.1 hm with rfl | hm
    · exact absurd hanc (hlin.not_isAncestor_self List.mem_cons_self)
    · exact hm

/-- **A walk from a sound node ends without an error**, whatever stops it. -/
theorem Sound.exists_walk {α : Type} (hs : h.Sound node) (stop : String → Option α) :
    ∃ out, walk h stop node = .ok out := by
  obtain ⟨ps, hn⟩ := hs.find?
  unfold walk
  simp only [hn]
  cases stop node with
  | some a => exact ⟨_, rfl⟩
  | none =>
    refine exists_walkParents_eq_ok h stop node [node] ps [] (fun p hp => hs.parent ⟨ps, hn, hp⟩) fun p hp q hq => ?_
    rw [List.mem_singleton.1 hq]
    exact hs.not_atOrAbove_parent ⟨ps, hn, hp⟩

/-- **The ancestors of a sound node can be listed.** -/
theorem Sound.exists_ancestors (hs : h.Sound node) : ∃ nodes, h.ancestors node = .ok nodes := by
  obtain ⟨out, hout⟩ := hs.exists_walk neverStops
  unfold ancestors
  rw [hout]
  cases out with
  | stopped a => exact a.elim
  | left nodes => exact ⟨nodes, rfl⟩

theorem Sound.exists_nearest {α : Type} (hs : h.Sound node) (own : String → Option α) :
    ∃ found, h.nearest own node = .ok found := by
  obtain ⟨out, hout⟩ := hs.exists_walk own
  unfold nearest
  rw [hout]
  cases out with
  | stopped a => exact ⟨some a, rfl⟩
  | left nodes => exact ⟨none, rfl⟩

theorem exists_ancestors_iff : (∃ nodes, h.ancestors node = .ok nodes) ↔ h.Sound node := by
  constructor
  · rintro ⟨nodes, ha⟩
    exact (linear_of_ancestors ha).sound List.mem_cons_self
  · exact Sound.exists_ancestors

/-- **Whether a node inherits from another can be told of sound nodes**, and is told right. -/
theorem isAncestor_eq_ok_iff {a : String} {b : Bool} :
    h.isAncestor a node = .ok b ↔ h.Sound node ∧ (b = true ↔ h.IsAncestor a node) := by
  unfold isAncestor descendingParents
  rw [← exists_ancestors_iff]
  cases ha : h.ancestors node with
  | error e => simp [Except.map]
  | ok nodes =>
    rw [← mem_of_ancestors ha]
    simp only [Except.map, Except.ok.injEq, exists_eq', true_and, List.contains_reverse]
    rw [Bool.eq_iff_iff, List.contains_iff_mem]
    exact iff_comm

theorem descending_eq_ok_iff {order : List String} :
    h.descending node = .ok order ↔ ∃ nodes, h.ancestors node = .ok nodes ∧ order = (node :: nodes).reverse := by
  unfold descending ascending
  cases h.ancestors node with
  | error e => simp [Except.map]
  | ok nodes => simp [Except.map, eq_comm]

/-- **Of two nodes of a lineage one of which inherits from the other, the ancestor stands first.** -/
theorem sublist_of_descending {order : List String} (hd : h.descending node = .ok order) {a n : String} (hn : n ∈ order)
    (ha : h.IsAncestor a n) : [a, n].Sublist order := by
  obtain ⟨nodes, hnodes, rfl⟩ := descending_eq_ok_iff.1 hd
  have := (linear_of_ancestors hnodes).sublist_of_isAncestor (List.mem_reverse.1 hn) ha
  simpa using List.reverse_sublist.2 this

theorem nodup_of_descending {order : List String} (hd : h.descending node = .ok order) : order.Nodup := by
  obtain ⟨nodes, hnodes, rfl⟩ := descending_eq_ok_iff.1 hd
  exact (List.reverse_perm _).nodup_iff.2 (linear_of_ancestors hnodes).nodup

/-- Whoever inherits from a node of a lineage stands behind it there. -/
theorem mem_after_of_isAncestor {before after : List String} {a n : String}
    (hd : h.descending node = .ok (before ++ a :: after)) (hn : n ∈ before ++ a :: after) (ha : h.IsAncestor a n) :
    n ∈ after :=
  mem_of_pair_sublist (nodup_of_descending hd) (sublist_of_descending hd hn ha)

/-- **In a lineage no node stands behind one that inherits from it.** -/
theorem pairwise_of_descending {order : List String} (hd : h.descending node = .ok order) :
    order.Pairwise fun a b => ¬ h.IsAncestor b a := by
  have hnd : order.Nodup := nodup_of_descending hd
  rw [List.pairwise_iff_forall_sublist]
  intro a b hab hanc
  have hba : [b, a].Sublist order := sublist_of_descending hd (hab.subset (by simp)) hanc
  have haa : [a, a].Sublist order := pair_sublist_trans hnd hab hba
  simpa using haa.nodup hnd

theorem mem_of_descending {order : List String} (hd : h.descending node = .ok order) (n : String) :
    n ∈ order ↔ n = node ∨ h.IsAncestor n node := by
  obtain ⟨nodes, hnodes, rfl⟩ := descending_eq_ok_iff.1 hd
  rw [List.mem_reverse, List.mem_cons, mem_of_ancestors hnodes]

/-- Without the node itself, which is the last, a lineage lists the ancestors. -/
theorem descendingParents_of_descending {order : List String} (hd : h.descending node = .ok order) :
    h.descendingParents node = .ok order.dropLast := by
  obtain ⟨nodes, hnodes, rfl⟩ := descending_eq_ok_iff.1 hd
  rw [descendingParents, hnodes, List.reverse_cons, List.dropLast_concat]
  rfl

theorem mem_descending_iff_atOrAbove {order : List String} (hd : h.descending node = .ok order) {n : String} :
    n ∈ order ↔ h.AtOrAbove n node :=
  (mem_of_descending hd n).trans atOrAbove_iff.symm

theorem exists_descending_iff : (∃ order, h.descending node = .ok order) ↔ h.Sound node := by
  rw [← exists_ancestors_iff]
  constructor
  · rintro ⟨order, hd⟩
    obtain ⟨nodes, ha, -⟩ := descending_eq_ok_iff.1 hd
    exact ⟨nodes, ha⟩
  · rintro ⟨nodes, ha⟩
    exact ⟨_, descending_eq_ok_iff.2 ⟨nodes, ha, rfl⟩⟩

/-- **A lineage is the recursive listing**, for every depth that covers the hierarchy. -/
theorem postOrder_eq_of_descending {order : List String} (hd : h.descending node = .ok order) {depth : Nat}
    (hdepth : h.size ≤ depth) : postOrder h depth [] node = order := by
  obtain ⟨nodes, hnodes, rfl⟩ := descending_eq_ok_iff.1 hd
  obtain ⟨ps, hn, hc⟩ := climb_of_ancestors hnodes
  have hfewer := unmet_cons_lt (NameMap.mem_names.2 ⟨ps, hn⟩) (List.not_mem_nil (a := node))
  have hall : (unmet h.names []).length ≤ h.size := h.length_unmet_le []
  cases depth with
  | zero => omega
  | succ depth =>
    have hlist := hc.foldl_postOrder depth (by omega)
    rw [List.reverse_nil] at hlist
    rw [postOrder, if_neg List.not_mem_nil, hn, Option.getD_some, hlist, List.reverse_cons]

/-- The outcome of the machine that nothing stops is the lineage. -/
theorem leaveLast_walk_eq_map_descending (h : Hierarchy) (node : String) :
    leaveLast node (walk h neverStops node) =
      (h.descending node).map fun order => .left order.reverse := by
  unfold descending ascending ancestors
  cases walk h neverStops node with
  | error e => rfl
  | ok out =>
    cases out with
    | stopped a => exact a.elim
    | left nodes => simp [leaveLast, Except.map]

/-- **Linearization.** The walk with frames ends from every node of every hierarchy, and with the lineage; a node has a
lineage exactly when it is sound; a lineage holds the node and its transitive parents once each, what is inherited from
before what inherits, the node last, and is the recursive listing in post-order. -/
theorem descending_linearizes (h : Hierarchy) (node : String) :
    (∀ r, Ends h neverStops (start h neverStops node) r ↔
      r = (h.descending node).map fun order => .left order.reverse) ∧
    ((∃ order, h.descending node = .ok order) ↔ h.Sound node) ∧
    ∀ order, h.descending node = .ok order →
      order.Nodup ∧ (∀ n, n ∈ order ↔ n = node ∨ h.IsAncestor n node) ∧
      (∀ a n, n ∈ order → h.IsAncestor a n → [a, n].Sublist order) ∧
      order.getLast? = some node ∧
      ∀ depth, h.size ≤ depth → postOrder h depth [] node = order := by
  refine ⟨fun r => ?_, exists_descending_iff, fun order hd => ⟨nodup_of_descending hd, mem_of_descending hd,
    fun a n hn ha => sublist_of_descending hd hn ha, ?_, fun depth hdepth => postOrder_eq_of_descending hd hdepth⟩⟩
  · rw [ends_start_iff, leaveLast_walk_eq_map_descending]
  · obtain ⟨nodes, -, rfl⟩ := descending_eq_ok_iff.1 hd
    rw [List.getLast?_reverse, List.head?_cons]

/-- A node with two parents that share a parent. -/
def diamond : Hierarchy := .ofList [("app", ["web", "jobs"]), ("web", ["base"]), ("jobs", ["base"]), ("base", [])]

theorem diamond_linearizes : diamond.descending "app" = .ok ["base", "web", "jobs", "app"] ∧
    ["base", "web", "jobs", "app"].Nodup ∧ ["base", "web", "jobs", "app"].getLast? = some "app" ∧
    postOrder diamond 4 [] "app" = ["base", "web", "jobs", "app"] := by
  have hd : diamond.descending "app" = .ok ["base", "web", "jobs", "app"] := by cbv
  have hsize : diamond.size ≤ 4 := by decide
  obtain ⟨-, -, h⟩ := descending_linearizes diamond "app"
  obtain ⟨hnd, -, -, hlast, hpost⟩ := h _ hd
  exact ⟨hd, hnd, hlast, hpost 4 hsize⟩

end Hierarchy
end DeployInventory
