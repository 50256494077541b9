import DeployInventory.Proofs.Plan.Order
/-!
# Proofs.Plan.JobOrders — the job orders that a plan is sorted by and those of its deployments

The order of a plan and its deployments go over the same entries, but the order takes the item's own job order where
there is one, and a deployment always has that of its project. The two tell the same job orders just when no item has
one that differs from that of its project (`deployments_jobOrders`).
-/
namespace DeployInventory

variable {engine : SearchEngine} {inv : Inventory} {projects : List String} {items : List ExpandedItem}
  {e : ExpandedItem}

/-- The project and the job order that an entry is sorted by; none for an entry without a project. -/
def Rank.sortingPair : Rank × ExpandedItem → Option (String × Int)
  | (.ranked jobOrder _, e) => e.project.map (·, jobOrder)
  | (.last, _) => none

theorem Rank.sortingPair_eq_none {r : Rank} (he : e.project = none) : sortingPair (r, e) = none := by
  cases r with
  | ranked jobOrder position => rw [sortingPair, he, Option.map_none]
  | last => rfl

theorem ExpandedItem.effectiveJobOrder_eq_getD {project : String} {n : Int} (h : inv.jobOrder project = .ok n) :
    e.effectiveJobOrder inv project = .ok (e.item.jobOrder.getD n) := by
  unfold effectiveJobOrder
  cases e.item.jobOrder with
  | none => exact h
  | some own => rfl

theorem Inventory.deployment_eq_ok {project environment : String} {d : Deployment}
    (h : inv.deployment project environment = .ok d) : d.project = project ∧ inv.jobOrder project = .ok d.jobOrder := by
  unfold deployment at h
  obtain ⟨stack, -, h⟩ := bind_eq_ok_iff.1 h
  obtain ⟨n, hn, h⟩ := bind_eq_ok_iff.1 h
  obtain ⟨hosts, -, h⟩ := bind_eq_ok_iff.1 h
  obtain rfl := pure_eq_ok_iff.1 h
  exact ⟨rfl, hn⟩

/-! ## Entry by entry -/

/-- Whether a deployment is one of an entry's project, with the job order that the project has. -/
def ExpandedItem.DeployedAs (inv : Inventory) (e : ExpandedItem) (d : Deployment) : Prop :=
  e.project = some d.project ∧ inv.jobOrder d.project = .ok d.jobOrder

/-- The project and the job order of a deployment, with the item's own job order in the place of that, if it has one. -/
def ExpandedItem.overridden (e : ExpandedItem) (d : Deployment) : String × Int :=
  (d.project, e.item.jobOrder.getD d.jobOrder)

theorem ExpandedItem.DeployedAs.sortingPair_eq_some {d : Deployment} {r : Rank} (h : e.DeployedAs inv d)
    (hrank : e.rank inv projects = .ok r) : Rank.sortingPair (r, e) = some (e.overridden d) := by
  obtain ⟨hproject, horder⟩ := h
  obtain ⟨n, hn, rfl⟩ := (rank_eq_ok_iff hproject).1 hrank
  have hown : n = e.item.jobOrder.getD d.jobOrder := ok_unique hn (effectiveJobOrder_eq_getD horder)
  rw [Rank.sortingPair, hproject, Option.map_some, hown, overridden]

theorem forall₂_deployedAs {environment : String} : ∀ {items : List ExpandedItem} {ds : List Deployment},
    (items.filterMap (·.project)).mapM (fun project => inv.deployment project environment) = .ok ds →
    List.Forall₂ (ExpandedItem.DeployedAs inv) (items.filter (·.project.isSome)) ds
  | [], ds, h => by
    obtain rfl := pure_eq_ok_iff.1 h
    exact .nil
  | e :: items, ds, h => by
    cases he : e.project with
    | none =>
      rw [List.filterMap_cons_none he] at h
      rw [List.filter_cons_of_neg (by simp [he])]
      exact forall₂_deployedAs h
    | some project =>
      rw [List.filterMap_cons_some he] at h
      rw [List.filter_cons_of_pos (by simp [he])]
      obtain ⟨d, rest, hd, hrest, rfl⟩ := List.forall₂_cons_left_iff.1 (mapM_eq_ok_iff.1 h)
      obtain ⟨rfl, horder⟩ := Inventory.deployment_eq_ok hd
      exact .cons ⟨he, horder⟩ (forall₂_deployedAs (mapM_eq_ok_iff.2 hrest))

/-- **The pairs that entries are sorted by**, read off their deployments. -/
theorem filterMap_sortingPair : ∀ {ranked : List (Rank × ExpandedItem)} {ds : List Deployment},
    (∀ r ∈ ranked, r.2.rank inv projects = .ok r.1) →
    List.Forall₂ (ExpandedItem.DeployedAs inv) ((ranked.map Prod.snd).filter (·.project.isSome)) ds →
    ranked.filterMap Rank.sortingPair =
      List.zipWith ExpandedItem.overridden ((ranked.map Prod.snd).filter (·.project.isSome)) ds
  | [], _, _, _ => rfl
  | (r, e) :: ranked, ds, hranked, hds => by
    obtain ⟨hrank, hranked⟩ := List.forall_mem_cons.1 hranked
    rw [List.map_cons] at hds ⊢
    cases he : e.project with
    | none =>
      rw [List.filter_cons_of_neg (by simp [he])] at hds ⊢
      rw [List.filterMap_cons_none (Rank.sortingPair_eq_none he)]
      exact filterMap_sortingPair hranked hds
    | some project =>
      rw [List.filter_cons_of_pos (by simp [he])] at hds ⊢
      obtain ⟨d, ds, hd, hrest, rfl⟩ := List.forall₂_cons_left_iff.1 hds
      rw [List.filterMap_cons_some (hd.sortingPair_eq_some hrank), List.zipWith_cons_cons,
        filterMap_sortingPair hranked hrest]

theorem ExpandedItem.DeployedAs.overridden_eq_iff {d : Deployment} (h : e.DeployedAs inv d) :
    e.overridden d = (d.project, d.jobOrder) ↔
      ∀ project n, e.project = some project → e.item.jobOrder = some n → inv.jobOrder project = .ok n := by
  obtain ⟨hproject, horder⟩ := h
  unfold overridden
  rw [Prod.mk.injEq, hproject]
  cases e.item.jobOrder with
  | none => simp
  | some own => simp [horder, eq_comm]

theorem zipWith_overridden_eq_iff {bound : List ExpandedItem} {ds : List Deployment}
    (h : List.Forall₂ (ExpandedItem.DeployedAs inv) bound ds) :
    List.zipWith ExpandedItem.overridden bound ds = ds.map (fun d => (d.project, d.jobOrder)) ↔
      ∀ e ∈ bound, ∀ project n, e.project = some project → e.item.jobOrder = some n →
        inv.jobOrder project = .ok n := by
  induction h with
  | nil => simp
  | @cons e d bound ds he _ ih =>
    rw [List.zipWith_cons_cons, List.map_cons, List.cons.injEq, he.overridden_eq_iff, ih, List.forall_mem_cons]

namespace DeployPlan

/-- **The job orders of a plan's deployments.** Where a plan has an order and deployments, each entry with a project has
one deployment, in the order of expansion, and that has the job order of the project; the entry is sorted by the item's
own job order, if it has one, else by that of the deployment. So the pairs are the same just when no item has a job
order other than that of its project. -/
theorem deployments_jobOrders {p : DeployPlan} {out : List ExpandedItem} {ds : List Deployment}
    (hout : p.order engine inv = .ok out) (hds : p.deployments engine inv = .ok ds) :
    ∃ projects ranked, dependencyOrder (p.expand engine inv) = .ok projects ∧
      rankedItems inv projects (p.expand engine inv) = .ok ranked ∧
      (out = if p.reverseOrder then (sortByRank ranked).reverse else sortByRank ranked) ∧
      List.Forall₂ (ExpandedItem.DeployedAs inv) ((p.expand engine inv).filter (·.project.isSome)) ds ∧
      ranked.filterMap Rank.sortingPair =
        List.zipWith ExpandedItem.overridden ((p.expand engine inv).filter (·.project.isSome)) ds ∧
      (ds.map (fun d => (d.project, d.jobOrder)) = ranked.filterMap Rank.sortingPair ↔
        ∀ e ∈ p.expand engine inv, ∀ project n, e.project = some project → e.item.jobOrder = some n →
          inv.jobOrder project = .ok n) := by
  obtain ⟨projects, ranked, hprojects, hranked, hsorted⟩ := order_eq_ok_iff.1 hout
  have hbound := forall₂_deployedAs hds
  obtain ⟨hentries, hranks⟩ := rankedItems_eq_ok hranked
  have hpairs : ranked.filterMap Rank.sortingPair =
      List.zipWith ExpandedItem.overridden ((p.expand engine inv).filter (·.project.isSome)) ds := by
    rw [← hentries] at hbound ⊢
    exact filterMap_sortingPair hranks hbound
  refine ⟨projects, ranked, hprojects, hranked, hsorted, hbound, hpairs, ?_⟩
  rw [hpairs, eq_comm, zipWith_overridden_eq_iff hbound]
  constructor
  · intro h e he project n hproject
    exact h e (List.mem_filter.2 ⟨he, by simp [hproject]⟩) project n hproject
  · intro h e he
    exact h e (List.mem_filter.1 he).1

/-- A project that inherits its job order. -/
def pinnedRecords : List Record :=
  [.environment { name := "live" }, .project { name := "base", jobOrder := some 3 },
    .project { name := "web", parents := ["base"] }]

/-- Two items for one project, one with a job order, and one for a project that does not exist. -/
def pinnedPlan (own : Int) : DeployPlan :=
  { name := "release", environment := "live"
    items := [{ project := some "web", jobOrder := some own }, { project := some "gone" }, { project := some "web" }] }

theorem pinnedPlan_jobOrders : ∃ out ds projects ranked,
    (pinnedPlan 3).order .words (.ofRecords pinnedRecords) = .ok out ∧
    (pinnedPlan 3).deployments .words (.ofRecords pinnedRecords) = .ok ds ∧
    rankedItems (.ofRecords pinnedRecords) projects ((pinnedPlan 3).expand .words (.ofRecords pinnedRecords)) =
      .ok ranked ∧
    ds.map (fun d => (d.project, d.jobOrder)) = ranked.filterMap Rank.sortingPair := by
  obtain ⟨out, hout⟩ : ∃ out, (pinnedPlan 3).order .words (.ofRecords pinnedRecords) = .ok out := ⟨_, by cbv⟩
  obtain ⟨ds, hds⟩ : ∃ ds, (pinnedPlan 3).deployments .words (.ofRecords pinnedRecords) = .ok ds := ⟨_, by cbv⟩
  have hexpand : (pinnedPlan 3).expand .words (.ofRecords pinnedRecords) =
      [⟨0, some "web", { project := some "web", jobOrder := some 3 }⟩, ⟨1, none, { project := some "gone" }⟩,
        ⟨2, some "web", { project := some "web" }⟩] := by cbv
  have hweb : Inventory.jobOrder (.ofRecords pinnedRecords) "web" = .ok 3 := by cbv
  obtain ⟨projects, ranked, -, hranked, -, -, -, hagree⟩ := deployments_jobOrders hout hds
  refine ⟨out, ds, projects, ranked, hout, hds, hranked, hagree.2 fun e he project n hproject hown => ?_⟩
  rw [hexpand] at he
  simp only [List.mem_cons, List.not_mem_nil, or_false] at he
  rcases he with rfl | rfl | rfl
  · cases hproject
    cases hown
    exact hweb
  · cases hproject
  · cases hown

/-- An item with a job order of its own is sorted by that and deployed with the job order of its project. -/
theorem pinnedPlan_disagrees : ¬ ∀ (engine : SearchEngine) (inv : Inventory) (p : DeployPlan)
    (out : List ExpandedItem) (ds : List Deployment) (projects : List String) (ranked : List (Rank × ExpandedItem)),
    p.order engine inv = .ok out →
    p.deployments engine inv = .ok ds → dependencyOrder (p.expand engine inv) = .ok projects →
    rankedItems inv projects (p.expand engine inv) = .ok ranked →
    ds.map (fun d => (d.project, d.jobOrder)) = ranked.filterMap Rank.sortingPair := by
  intro hall
  obtain ⟨out, hout⟩ : ∃ out, (pinnedPlan 5).order .words (.ofRecords pinnedRecords) = .ok out := ⟨_, by cbv⟩
  obtain ⟨ds, hds, hdeployed⟩ : ∃ ds, (pinnedPlan 5).deployments .words (.ofRecords pinnedRecords) = .ok ds ∧
      ds.map (fun d => (d.project, d.jobOrder)) = [("web", 3), ("web", 3)] := ⟨_, by cbv, by cbv⟩
  obtain ⟨projects, hprojects, ranked, hranked, hsorted⟩ : ∃ projects,
      dependencyOrder ((pinnedPlan 5).expand .words (.ofRecords pinnedRecords)) = .ok projects ∧ ∃ ranked,
      rankedItems (.ofRecords pinnedRecords) projects ((pinnedPlan 5).expand .words (.ofRecords pinnedRecords)) =
        .ok ranked ∧
      ranked.filterMap Rank.sortingPair = [("web", 5), ("web", 3)] := ⟨_, by cbv, _, by cbv, by cbv⟩
  have hsame := hall _ _ _ _ _ _ _ hout hds hprojects hranked
  rw [hdeployed, hsorted] at hsame
  simp at hsame

end DeployPlan

end DeployInventory
