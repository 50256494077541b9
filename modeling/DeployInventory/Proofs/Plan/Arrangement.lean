import DeployInventory.Proofs.Plan.Expansion
import DeployInventory.Proofs.Plan.Order
/-!
# Proofs.Plan.Arrangement — the one order of a plan's entries

A list of entries is arranged when it has all of them, those with a project first and by job order and position of the
project, and those with one key as the plan has them (`Arranged`). Lists that ascend and agree on the entries of every
key are equal, so no two lists are arranged (`Arranged.unique`), and the order of a plan is the one that is
(`order_arranges`).
-/
namespace DeployInventory

variable {engine : SearchEngine} {inv : Inventory} {projects : List String} {items out out' : List ExpandedItem}
  {e : ExpandedItem} {k : Rank}

/-- **The key that an entry is sorted by**: the job order of the entry with the position of its project in an order of
projects; the last one for an entry without a project. -/
inductive ExpandedItem.HasKey (inv : Inventory) (projects : List String) (e : ExpandedItem) : Rank → Prop where
  | bound {project : String} {jobOrder : Int} {position : Nat} (hproject : e.project = some project)
      (horder : e.effectiveJobOrder inv project = .ok jobOrder) (hposition : projects[position]? = some project) :
      HasKey inv projects e (.ranked jobOrder position)
  | unbound (hproject : e.project = none) : HasKey inv projects e .last

/-- **Entries in the order of their keys**, as the order of projects tells them: none is lost, and entries with one key
keep the order in which they were listed. -/
structure Arranged (inv : Inventory) (projects : List String) (items out : List ExpandedItem) : Prop where
  perm : out.Perm items
  keyed : ∀ e ∈ out, ∃ k, e.HasKey inv projects k
  boundFirst : out.Pairwise fun x y => x.project = none → y.project = none
  ascending : out.Pairwise fun x y => ∀ m i n j, x.HasKey inv projects (.ranked m i) →
    y.HasKey inv projects (.ranked n j) → m < n ∨ (m = n ∧ i ≤ j)
  stable : ∀ (k : Rank) (run : List ExpandedItem), run.Sublist items → (∀ e ∈ run, e.HasKey inv projects k) →
    run.Sublist out

namespace ExpandedItem

theorem HasKey.rank_eq (hnd : projects.Nodup) (h : e.HasKey inv projects k) : e.rank inv projects = .ok k := by
  cases h with
  | @bound project jobOrder position hproject horder hposition =>
    obtain ⟨hlt, hat⟩ := List.getElem?_eq_some_iff.1 hposition
    have hidx : projects.idxOf project = position := by
      rw [← hat]
      exact hnd.idxOf_getElem position hlt
    rw [rank_eq_ok_iff hproject]
    exact ⟨jobOrder, horder, by rw [hidx]⟩
  | unbound hproject =>
    unfold rank
    rw [hproject]

theorem hasKey_of_rank_eq (hlisted : ∀ project, e.project = some project → project ∈ projects)
    (h : e.rank inv projects = .ok k) : e.HasKey inv projects k := by
  cases hproject : e.project with
  | none =>
    unfold rank at h
    rw [hproject] at h
    cases h
    exact .unbound hproject
  | some project =>
    obtain ⟨jobOrder, horder, rfl⟩ := (rank_eq_ok_iff hproject).1 h
    have hlt := List.idxOf_lt_length_of_mem (hlisted project hproject)
    exact .bound hproject horder (List.getElem?_eq_some_iff.2 ⟨hlt, List.getElem_idxOf hlt⟩)

end ExpandedItem

/-! ## Only one list is arranged -/

/-- **Lists that ascend and agree on the members of every key are equal**, once members that come before each other
share a key. -/
theorem eq_of_pairwise_of_filter_eq {α κ : Type} {le : α → α → Prop} {has : κ → α → Bool} : ∀ {l l' : List α},
    l.Perm l' → l.Pairwise le → l'.Pairwise le →
    (∀ x ∈ l, ∀ y ∈ l, le x y → le y x → ∃ k, has k x = true ∧ has k y = true) →
    (∀ k, l.filter (has k) = l'.filter (has k)) → l = l'
  | [], l', hperm, _, _, _, _ => hperm.nil_eq
  | x :: l, [], hperm, _, _, _, _ => absurd hperm.eq_nil (by simp)
  | x :: l, y :: l', hperm, hl, hl', htie, hfilter => by
    -- Heads that differ would stand before each other, and so share a key; but each is the first one of it in its list.
    have hxy : x = y := by
      by_contra hne
      have hy : y ∈ l := (List.mem_cons.1 (hperm.mem_iff.2 List.mem_cons_self)).resolve_left (Ne.symm hne)
      have hx : x ∈ l' := (List.mem_cons.1 (hperm.mem_iff.1 List.mem_cons_self)).resolve_left hne
      obtain ⟨k, hkx, hky⟩ := htie x List.mem_cons_self y (List.mem_cons_of_mem _ hy)
        ((List.pairwise_cons.1 hl).1 y hy) ((List.pairwise_cons.1 hl').1 x hx)
      have hheads := hfilter k
      rw [List.filter_cons_of_pos hkx, List.filter_cons_of_pos hky] at hheads
      exact hne (List.cons.inj hheads).1
    subst hxy
    have hrest : ∀ k, l.filter (has k) = l'.filter (has k) := by
      intro k
      have hk := hfilter k
      simp only [List.filter_cons] at hk
      split at hk
      · exact (List.cons.inj hk).2
      · exact hk
    rw [eq_of_pairwise_of_filter_eq hperm.cons_inv (List.pairwise_cons.1 hl).2 (List.pairwise_cons.1 hl').2
      (fun z hz w hw => htie z (List.mem_cons_of_mem _ hz) w (List.mem_cons_of_mem _ hw)) hrest]

namespace Arranged

open Classical in
theorem filter_hasKey (h : Arranged inv projects items out) (k : Rank) :
    out.filter (fun e => decide (e.HasKey inv projects k)) =
      items.filter (fun e => decide (e.HasKey inv projects k)) := by
  have hrun : ∀ e ∈ items.filter (fun e => decide (e.HasKey inv projects k)), e.HasKey inv projects k := by
    intro e he
    exact of_decide_eq_true (List.mem_filter.1 he).2
  -- The run is in `out` as well, and there are no more entries of the key than in `items`.
  have hsub := (h.stable k _ List.filter_sublist hrun).filter fun e => decide (e.HasKey inv projects k)
  rw [List.filter_filter] at hsub
  simp only [Bool.and_self] at hsub
  exact (hsub.eq_of_length (h.perm.filter _).length_eq.symm).symm

theorem pairwise_atMost (h : Arranged inv projects items out) :
    out.Pairwise fun x y => ∀ k l, x.HasKey inv projects k → y.HasKey inv projects l → k.atMost l = true := by
  refine (h.boundFirst.and h.ascending).imp ?_
  rintro x y ⟨hfirst, hascending⟩ k l hk hl
  cases hl with
  | unbound _ => cases k <;> rfl
  | bound hproject horder hposition =>
    cases hk with
    | unbound hnone =>
      rw [hfirst hnone] at hproject
      cases hproject
    | bound hproject' horder' hposition' =>
      have hle := hascending _ _ _ _ (.bound hproject' horder' hposition') (.bound hproject horder hposition)
      simpa only [Rank.atMost, Bool.or_eq_true, Bool.and_eq_true, decide_eq_true_eq] using hle

theorem unique (h : Arranged inv projects items out) (h' : Arranged inv projects items out') : out = out' := by
  classical
  refine eq_of_pairwise_of_filter_eq (h.perm.trans h'.perm.symm) h.pairwise_atMost h'.pairwise_atMost ?_ fun k =>
    (h.filter_hasKey k).trans (h'.filter_hasKey k).symm
  intro x hx y hy hxy hyx
  obtain ⟨k, hk⟩ := h.keyed x hx
  obtain ⟨l, hl⟩ := h.keyed y hy
  obtain rfl := Rank.eq_of_atMost (hxy k l hk hl) (hyx l k hl hk)
  exact ⟨k, decide_eq_true hk, decide_eq_true hl⟩

end Arranged

/-! ## The order of a plan is arranged -/

theorem SortedByRank.pairwise_atMost {sorted : List (Rank × ExpandedItem)} (h : SortedByRank inv projects sorted)
    (hnd : projects.Nodup) : (sorted.map Prod.snd).Pairwise fun x y => ∀ k l, x.HasKey inv projects k →
      y.HasKey inv projects l → k.atMost l = true := by
  refine List.pairwise_map.2 (h.sorted.imp_of_mem fun {x y} hx hy hxy k l hk hl => ?_)
  obtain rfl := ok_unique (h.ranked x hx) (hk.rank_eq hnd)
  obtain rfl := ok_unique (h.ranked y hy) (hl.rank_eq hnd)
  exact hxy

namespace DeployPlan

variable {ranked : List (Rank × ExpandedItem)} {p : DeployPlan}

/-- Entries of one key keep their order when ranked entries are sorted: they are a sublist that is sorted already. -/
theorem sublist_sortByRank (hnd : projects.Nodup) (hranked : rankedItems inv projects items = .ok ranked)
    {run : List ExpandedItem} (hsub : run.Sublist items) (hrun : ∀ e ∈ run, e.HasKey inv projects k) :
    run.Sublist (sortByRank ranked) := by
  obtain ⟨rfl, hrank⟩ := rankedItems_eq_ok hranked
  obtain ⟨run, hrunSub, rfl⟩ := List.sublist_map_iff.1 hsub
  have hkey : ∀ x ∈ run, x.1 = k := by
    intro x hx
    have hk := (hrun x.2 (List.mem_map_of_mem hx)).rank_eq hnd
    exact ok_unique (hrank x (hrunSub.subset hx)) hk
  have hsorted : run.Pairwise fun x y => x.1.atMost y.1 = true := by
    refine List.pairwise_of_forall_mem_list fun x hx y hy => ?_
    rw [hkey x hx, hkey y hy]
    exact Rank.atMost_self k
  refine (List.sublist_mergeSort ?_ ?_ hsorted hrunSub).map _
  · exact fun _ _ _ => Rank.atMost_trans
  · exact fun x y => Rank.atMost_total x.1 y.1

/-- **Entries sorted by their ranks are arranged.** -/
theorem arranged_sortByRank (hnd : projects.Nodup)
    (hlisted : ∀ e ∈ items, ∀ project, e.project = some project → project ∈ projects)
    (hranked : rankedItems inv projects items = .ok ranked) : Arranged inv projects items (sortByRank ranked) := by
  have hperm : (sortByRank ranked).Perm items := by
    rw [← (rankedItems_eq_ok hranked).1]
    exact (List.mergeSort_perm _ _).map _
  have hbefore := (sortedByRank_mergeSort hranked).pairwise_atMost hnd
  have hkeyed : ∀ e ∈ sortByRank ranked, ∃ k, e.HasKey inv projects k := by
    intro e he
    obtain ⟨x, hx, rfl⟩ := List.mem_map.1 he
    exact ⟨x.1, ExpandedItem.hasKey_of_rank_eq (hlisted x.2 (hperm.mem_iff.1 he))
      ((sortedByRank_mergeSort hranked).ranked x hx)⟩
  refine ⟨hperm, hkeyed, ?_, ?_, fun k run hsub hrun => sublist_sortByRank hnd hranked hsub hrun⟩
  · refine hbefore.imp_of_mem fun {x y} _ hy hxy hnone => ?_
    obtain ⟨l, hl⟩ := hkeyed y hy
    have hlast := hxy .last l (.unbound hnone) hl
    cases hl with
    | bound _ _ _ => cases hlast
    | unbound hproject => exact hproject
  · refine hbefore.imp fun {x y} hxy m i n j hx hy => ?_
    have hle := hxy _ _ hx hy
    simpa only [Rank.atMost, Bool.or_eq_true, Bool.and_eq_true, decide_eq_true_eq] using hle

theorem perm_of_order (h : p.order engine inv = .ok out) : out.Perm (p.expand engine inv) := by
  obtain ⟨projects, l, -, -, hperm, rfl⟩ := exists_sorted_of_order h
  split
  · exact (List.reverse_perm _).trans hperm
  · exact hperm

theorem mem_of_dependencyOrder (h : dependencyOrder items = .ok projects) :
    ∀ e ∈ items, ∀ project, e.project = some project → project ∈ projects := fun e he _ hproject =>
  (perm_of_dependencyOrder h).mem_iff.1 (DependencyNode.mem_projects.2 ⟨e, he, hproject⟩)

theorem exists_rankedItems (hnd : projects.Nodup) (h : Arranged inv projects items out) :
    ∃ ranked, rankedItems inv projects items = .ok ranked := by
  refine Succeeds.mapM fun e he => Succeeds.map ?_
  obtain ⟨k, hk⟩ := h.keyed e (h.perm.mem_iff.2 he)
  exact ⟨k, hk.rank_eq hnd⟩

/-- **The order of a plan that is not turned round is the one that is arranged.** -/
theorem order_eq_ok_iff_arranged (hforward : p.reverseOrder = false) : p.order engine inv = .ok out ↔
    ∃ projects, dependencyOrder (p.expand engine inv) = .ok projects ∧
      Arranged inv projects (p.expand engine inv) out := by
  rw [order_eq_ok_iff, hforward]
  constructor
  · rintro ⟨projects, ranked, hprojects, hranked, rfl⟩
    exact ⟨projects, hprojects,
      arranged_sortByRank (nodup_of_dependencyOrder hprojects) (mem_of_dependencyOrder hprojects) hranked⟩
  · rintro ⟨projects, hprojects, harranged⟩
    have hnd := nodup_of_dependencyOrder hprojects
    obtain ⟨ranked, hranked⟩ := exists_rankedItems hnd harranged
    have hsorted := arranged_sortByRank hnd (mem_of_dependencyOrder hprojects) hranked
    exact ⟨projects, ranked, hprojects, hranked, harranged.unique hsorted⟩

/-- **A plan that is turned round has the reverse of the order that it has otherwise**, or the same error. -/
theorem order_reversed (engine : SearchEngine) (inv : Inventory) (p : DeployPlan) :
    { p with reverseOrder := true }.order engine inv =
      ({ p with reverseOrder := false }.order engine inv).map List.reverse := by
  unfold order
  dsimp only [expand]
  split
  · rfl
  · split
    · rfl
    · rfl

/-- **No entry is lost, and the order is exact.** The order of a plan that is not turned round is the only list that is
arranged: it has all entries, those with a project before those without one, the former by job order and then by the
position of the project in the order of dependencies, and entries that agree in both as the plan lists them. A plan that
is turned round has exactly the reverse. Either way the entries are those of the plan, each with the item at its
position in the plan, and every item has one. -/
theorem order_arranges (engine : SearchEngine) (inv : Inventory) (p : DeployPlan) :
    (∀ out, { p with reverseOrder := false }.order engine inv = .ok out ↔
      ∃ projects, dependencyOrder (p.expand engine inv) = .ok projects ∧
        Arranged inv projects (p.expand engine inv) out) ∧
    { p with reverseOrder := true }.order engine inv =
      ({ p with reverseOrder := false }.order engine inv).map List.reverse ∧
    ∀ out, p.order engine inv = .ok out → out.Perm (p.expand engine inv) ∧
      (∀ e ∈ out, p.items[e.index]? = some e.item) ∧
      ∀ index item, p.items[index]? = some item → ∃ e ∈ out, e.index = index ∧ e.item = item := by
  refine ⟨fun out => order_eq_ok_iff_arranged rfl, order_reversed engine inv p, fun out h => ?_⟩
  have hperm := perm_of_order h
  refine ⟨hperm, fun e he => (mem_expand_iff.1 (hperm.mem_iff.1 he)).1, fun index item hitem => ?_⟩
  obtain ⟨e, he, hindex⟩ := exists_mem_expand hitem
  exact ⟨e, hperm.mem_iff.2 he, hindex⟩

def looseItem : DeployItem := { tags := ["later"] }

/-- A plan that names two projects twice and one that does not exist, and has an item without any. -/
def mixedPlan : DeployPlan :=
  { name := "release", environment := "live"
    items := [{ project := some "ghost" }, chainWeb, looseItem, chainApi, chainDb, { project := some "web" },
      { project := some "api", jobOrder := some (-1) }] }

theorem mixedPlan_arranges : ∃ out, mixedPlan.order .words (.ofRecords chainRecords) = .ok out ∧
    out.map (·.index) = [6, 4, 3, 1, 5, 0, 2] ∧
    Arranged (.ofRecords chainRecords) ["db", "api", "web"] (mixedPlan.expand .words (.ofRecords chainRecords)) out ∧
    { mixedPlan with reverseOrder := true }.order .words (.ofRecords chainRecords) = .ok out.reverse ∧
    mixedPlan.items[2]? = some looseItem ∧ ∃ e ∈ out, e.index = 2 ∧ e.item = looseItem := by
  obtain ⟨out, hout, hindices⟩ : ∃ out, mixedPlan.order .words (.ofRecords chainRecords) = .ok out ∧
      out.map (·.index) = [6, 4, 3, 1, 5, 0, 2] :=
    ⟨_, by cbv, by cbv⟩
  obtain ⟨hexact, hreversed, hentries⟩ := order_arranges .words (.ofRecords chainRecords) mixedPlan
  obtain ⟨projects, hprojects, harranged⟩ := (hexact out).1 hout
  have hdeps : dependencyOrder (mixedPlan.expand .words (.ofRecords chainRecords)) = .ok ["db", "api", "web"] := by cbv
  obtain rfl := ok_unique hdeps hprojects
  have hitem : mixedPlan.items[2]? = some looseItem := rfl
  refine ⟨out, hout, hindices, harranged, ?_, hitem, (hentries out hout).2.2 2 looseItem hitem⟩
  rw [hreversed]
  exact congrArg (Except.map List.reverse) hout

end DeployPlan

end DeployInventory
