import DeployInventory.Plan.Order
import DeployInventory.Proofs.Checked
import DeployInventory.Proofs.Plan.Dependencies
/-!
# Proofs.Plan.Order — the order in which a plan is carried out

A plan with an order has a rank for each of its entries, and the entries stand by rank, or in reverse
(`exists_sorted_of_order`). A project that another one requires has the smaller position in the order of dependencies,
so its entries come first where the job orders do not speak against it (`order_respects_dependencies`).
-/
namespace DeployInventory

namespace Rank

theorem atMost_trans : ∀ {a b c : Rank}, a.atMost b = true → b.atMost c = true → a.atMost c = true
  | .ranked _ _, .ranked _ _, .ranked _ _, hab, hbc => by
    simp only [atMost, Bool.or_eq_true, Bool.and_eq_true, decide_eq_true_eq] at hab hbc ⊢
    omega
  | _, .last, .last, hab, _ => by
    rename_i a _
    cases a <;> rfl
  | .ranked _ _, _, .last, _, _ => rfl
  | _, .last, .ranked _ _, _, hbc => by cases hbc
  | .last, .ranked _ _, _, hab, _ => by cases hab

theorem atMost_total : ∀ a b : Rank, (a.atMost b || b.atMost a) = true
  | .ranked _ _, .ranked _ _ => by
    simp only [atMost, Bool.or_eq_true, Bool.and_eq_true, decide_eq_true_eq]
    omega
  | .ranked _ _, .last => rfl
  | .last, .ranked _ _ => rfl
  | .last, .last => rfl

theorem atMost_self (a : Rank) : a.atMost a = true := by
  simpa using atMost_total a a

theorem eq_of_atMost : ∀ {a b : Rank}, a.atMost b = true → b.atMost a = true → a = b
  | .ranked j p, .ranked k q, hab, hba => by
    simp only [atMost, Bool.or_eq_true, Bool.and_eq_true, decide_eq_true_eq] at hab hba
    obtain rfl : j = k := by omega
    obtain rfl : p = q := by omega
    rfl
  | .ranked _ _, .last, _, hba => by cases hba
  | .last, .ranked _ _, hab, _ => by cases hab
  | .last, .last, _, _ => rfl

/-- Of two entries whose job orders agree or ascend, the one with the smaller position has the smaller rank. -/
theorem not_atMost_of_lt {j k : Int} {m n : Nat} (hjk : j ≤ k) (hmn : m < n) :
    ¬ (ranked k n).atMost (ranked j m) = true := by
  simp only [atMost, Bool.or_eq_true, Bool.and_eq_true, decide_eq_true_eq]
  omega

end Rank

variable {engine : SearchEngine} {inv : Inventory} {projects : List String}

theorem ExpandedItem.rank_eq_ok_iff {e : ExpandedItem} {project : String} (he : e.project = some project) {r : Rank} :
    e.rank inv projects = .ok r ↔
      ∃ n, e.effectiveJobOrder inv project = .ok n ∧ .ranked n (projects.idxOf project) = r := by
  unfold rank
  rw [he]
  exact map_eq_ok_iff

/-- **Entries by rank**: every entry with the rank that it has, and no larger rank before a smaller one. -/
structure SortedByRank (inv : Inventory) (projects : List String) (l : List (Rank × ExpandedItem)) : Prop where
  ranked : ∀ e ∈ l, e.2.rank inv projects = .ok e.1
  sorted : l.Pairwise fun e f => e.1.atMost f.1 = true

/-- **Whether an entry has to be carried out before another**: the project of the second requires that of the first,
and the job order of the first is not the larger one. -/
def ExpandedItem.Precedes (inv : Inventory) (items : List ExpandedItem) (x y : ExpandedItem) : Prop :=
  ∃ p q j k, x.project = some p ∧ y.project = some q ∧ IsRequired items p q ∧
    x.effectiveJobOrder inv p = .ok j ∧ y.effectiveJobOrder inv q = .ok k ∧ j ≤ k

/-- In a list of entries by rank a rank that is not at most another stands after it. -/
theorem SortedByRank.lt_of_not_atMost {l : List (Rank × ExpandedItem)} (hl : SortedByRank inv projects l) {i j : Nat}
    {e f : Rank × ExpandedItem} (hi : l[i]? = some e) (hj : l[j]? = some f) (hfe : ¬ f.1.atMost e.1 = true) :
    i < j := by
  obtain ⟨hilt, rfl⟩ := List.getElem?_eq_some_iff.1 hi
  obtain ⟨hjlt, rfl⟩ := List.getElem?_eq_some_iff.1 hj
  rcases Nat.lt_trichotomy i j with hij | rfl | hji
  · exact hij
  · exact absurd (Rank.atMost_self _) hfe
  · exact absurd (List.pairwise_iff_getElem.1 hl.sorted j i hjlt hilt hji) hfe

theorem SortedByRank.exists_jobOrder {l : List (Rank × ExpandedItem)} (hl : SortedByRank inv projects l)
    {x : ExpandedItem} (hx : x ∈ l.map Prod.snd) {project : String} (hp : x.project = some project) :
    ∃ n, x.effectiveJobOrder inv project = .ok n := by
  obtain ⟨⟨r, x⟩, he, rfl⟩ := List.mem_map.1 hx
  obtain ⟨n, hn, -⟩ := (ExpandedItem.rank_eq_ok_iff hp).1 (hl.ranked _ he)
  exact ⟨n, hn⟩

/-- **An entry that has to precede another stands before it**, once the positions are those of an order of
dependencies. -/
theorem SortedByRank.lt_of_precedes {l : List (Rank × ExpandedItem)} (hl : SortedByRank inv projects l)
    {items : List ExpandedItem} (hdeps : dependencyOrder items = .ok projects) {i j : Nat} {x y : ExpandedItem}
    (hi : (l.map Prod.snd)[i]? = some x) (hj : (l.map Prod.snd)[j]? = some y) (hx : x ∈ items)
    (hxy : x.Precedes inv items y) : i < j := by
  obtain ⟨p, q, m, n, hp, hq, hreq, hm, hn, hmn⟩ := hxy
  rw [List.getElem?_map, Option.map_eq_some_iff] at hi hj
  obtain ⟨⟨rx, x⟩, hi, rfl⟩ := hi
  obtain ⟨⟨ry, y⟩, hj, rfl⟩ := hj
  have hrx := hl.ranked _ (List.mem_of_getElem? hi)
  have hry := hl.ranked _ (List.mem_of_getElem? hj)
  obtain ⟨m', hm', rfl⟩ := (ExpandedItem.rank_eq_ok_iff hp).1 hrx
  obtain ⟨n', hn', rfl⟩ := (ExpandedItem.rank_eq_ok_iff hq).1 hry
  obtain rfl : m' = m := ok_unique hm' hm
  obtain rfl : n' = n := ok_unique hn' hn
  have hsub := sublist_of_isRequired hdeps (DependencyNode.mem_projects.2 ⟨x, hx, hp⟩) hreq
  have hlt := idxOf_lt_of_pair_sublist (nodup_of_dependencyOrder hdeps) hsub
  exact hl.lt_of_not_atMost hi hj (Rank.not_atMost_of_lt hmn hlt)

/-- An engine that takes small letters alone for a pattern, which matches where a name has them in a row. -/
def SearchEngine.words : SearchEngine := fun pattern =>
  if pattern.toList.all ("abcdefghijklmnopqrstuvwxyz".toList.contains ·) then
    some fun name => (List.range (name.length + 1)).any fun n => pattern.toList.isPrefixOf (name.toList.drop n)
  else none

namespace DeployPlan

theorem rankedItems_eq_ok {items : List ExpandedItem} {ranked : List (Rank × ExpandedItem)}
    (h : rankedItems inv projects items = .ok ranked) :
    ranked.map Prod.snd = items ∧ ∀ e ∈ ranked, e.2.rank inv projects = .ok e.1 := by
  have hall := mapM_eq_ok_iff.1 h
  clear h
  induction hall with
  | nil => exact ⟨rfl, by simp⟩
  | @cons e ranked items rest he _ ih =>
    obtain ⟨rank, hrank, rfl⟩ := map_eq_ok_iff.1 he
    exact ⟨congrArg (e :: ·) ih.1, List.forall_mem_cons.2 ⟨hrank, ih.2⟩⟩

theorem sortedByRank_mergeSort {items : List ExpandedItem} {ranked : List (Rank × ExpandedItem)}
    (h : rankedItems inv projects items = .ok ranked) :
    SortedByRank inv projects (ranked.mergeSort fun x y => x.1.atMost y.1) := by
  refine ⟨fun e he => (rankedItems_eq_ok h).2 e (List.mem_mergeSort.1 he), List.pairwise_mergeSort ?_ ?_ ranked⟩
  · exact fun _ _ _ => Rank.atMost_trans
  · exact fun x y => Rank.atMost_total x.1 y.1

/-- **The entries of a plan are ranked by an order of their dependencies and sorted by rank**, and turned round at last
if the plan asks for it. -/
theorem order_eq_ok_iff {p : DeployPlan} {out : List ExpandedItem} : p.order engine inv = .ok out ↔
    ∃ projects ranked, dependencyOrder (p.expand engine inv) = .ok projects ∧
      rankedItems inv projects (p.expand engine inv) = .ok ranked ∧
      out = if p.reverseOrder then (sortByRank ranked).reverse else sortByRank ranked := by
  unfold order
  dsimp only
  cases dependencyOrder (p.expand engine inv) with
  | error members => simp
  | ok projects =>
    cases hranked : rankedItems inv projects (p.expand engine inv) with
    | error cause => simp [hranked]
    | ok ranked =>
      simp only [Except.ok.injEq, exists_and_left, exists_eq_left', hranked]
      exact eq_comm

/-- **The entries of a plan with an order** can be ranked by an order of their dependencies, and stand by rank. -/
theorem exists_sorted_of_order {p : DeployPlan} {out : List ExpandedItem} (h : p.order engine inv = .ok out) :
    ∃ projects l, dependencyOrder (p.expand engine inv) = .ok projects ∧ SortedByRank inv projects l ∧
      (l.map Prod.snd).Perm (p.expand engine inv) ∧
      out = if p.reverseOrder then (l.map Prod.snd).reverse else l.map Prod.snd := by
  obtain ⟨projects, ranked, hprojects, hranked, hout⟩ := order_eq_ok_iff.1 h
  refine ⟨projects, _, hprojects, sortedByRank_mergeSort hranked, ?_, hout⟩
  rw [← (rankedItems_eq_ok hranked).1]
  exact (List.mergeSort_perm _ _).map _

/-- **Dependencies are carried out first.** Where a plan has an order, each of its entries with a project has a job
order, and of two entries one of which has to precede the other that one stands first, or last when the order is
turned round. -/
theorem order_respects_dependencies {p : DeployPlan} {out : List ExpandedItem} (h : p.order engine inv = .ok out) :
    (∀ x ∈ out, ∀ project, x.project = some project → ∃ n, x.effectiveJobOrder inv project = .ok n) ∧
    ∀ (i j : Nat) (x y : ExpandedItem), out[i]? = some x → out[j]? = some y → x.Precedes inv (p.expand engine inv) y →
      if p.reverseOrder then j < i else i < j := by
  obtain ⟨projects, l, hdeps, hl, hperm, rfl⟩ := exists_sorted_of_order h
  cases p.reverseOrder with
  | false =>
    refine ⟨fun x hx project hp => hl.exists_jobOrder hx hp, fun i j x y hi hj hxy => ?_⟩
    exact hl.lt_of_precedes hdeps hi hj (hperm.mem_iff.1 (List.mem_of_getElem? hi)) hxy
  | true =>
    refine ⟨fun x hx project hp => hl.exists_jobOrder (List.mem_reverse.1 hx) hp, fun i j x y hi hj hxy => ?_⟩
    have hx := hperm.mem_iff.1 (List.mem_reverse.1 (List.mem_of_getElem? hi))
    have hilt := (List.getElem?_eq_some_iff.1 hi).1
    have hjlt := (List.getElem?_eq_some_iff.1 hj).1
    rw [if_pos rfl, List.length_reverse] at hilt hjlt
    rw [if_pos rfl, List.getElem?_reverse (by assumption)] at hi hj
    have := hl.lt_of_precedes hdeps hi hj hx hxy
    simp only [if_true]
    omega

/-- A project, the one that it depends on and the one that this depends on. -/
def chainRecords : List Record := [.project { name := "web" }, .project { name := "api" }, .project { name := "db" }]

def chainWeb : DeployItem := { project := some "web", dependsOn := ["api"] }

def chainApi : DeployItem := { project := some "api", dependsOn := ["db"] }

def chainDb : DeployItem := { search := some "db" }

def chainPlan : DeployPlan := { name := "release", environment := "live", items := [chainWeb, chainApi, chainDb] }

theorem chain_runs_in_order : ∃ out, chainPlan.order .words (.ofRecords chainRecords) = .ok out ∧
    out[0]? = some ⟨2, some "db", chainDb⟩ ∧ out[2]? = some ⟨0, some "web", chainWeb⟩ ∧
    ExpandedItem.Precedes (.ofRecords chainRecords) (chainPlan.expand .words (.ofRecords chainRecords))
      ⟨2, some "db", chainDb⟩ ⟨0, some "web", chainWeb⟩ ∧
    if chainPlan.reverseOrder then 2 < 0 else 0 < 2 := by
  obtain ⟨out, hout, hdb, hweb⟩ : ∃ out, chainPlan.order .words (.ofRecords chainRecords) = .ok out ∧
      out[0]? = some ⟨2, some "db", chainDb⟩ ∧ out[2]? = some ⟨0, some "web", chainWeb⟩ :=
    ⟨_, by cbv, by cbv, by cbv⟩
  have hexpand : chainPlan.expand .words (.ofRecords chainRecords) =
      [⟨0, some "web", chainWeb⟩, ⟨1, some "api", chainApi⟩, ⟨2, some "db", chainDb⟩] := by cbv
  have hdbApi : IsDependency (chainPlan.expand .words (.ofRecords chainRecords)) "db" "api" :=
    ⟨⟨1, some "api", chainApi⟩, by simp [hexpand], rfl, by simp [chainApi]⟩
  have hapiWeb : IsDependency (chainPlan.expand .words (.ofRecords chainRecords)) "api" "web" :=
    ⟨⟨0, some "web", chainWeb⟩, by simp [hexpand], rfl, by simp [chainWeb]⟩
  have hprecedes : ExpandedItem.Precedes (.ofRecords chainRecords) (chainPlan.expand .words (.ofRecords chainRecords))
      ⟨2, some "db", chainDb⟩ ⟨0, some "web", chainWeb⟩ :=
    ⟨"db", "web", 0, 0, rfl, rfl, .tail (.single hdbApi) hapiWeb, by cbv, by cbv, by decide⟩
  exact ⟨out, hout, hdb, hweb, hprecedes, (order_respects_dependencies hout).2 0 2 _ _ hdb hweb hprecedes⟩

end DeployPlan

end DeployInventory
