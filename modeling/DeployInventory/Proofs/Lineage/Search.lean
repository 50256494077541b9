import DeployInventory.Proofs.Checked
import DeployInventory.Proofs.Lineage.Climb
import DeployInventory.Proofs.Lineage.Path
import DeployInventory.Proofs.NameMap
/-!
# Proofs.Lineage.Search — the search without memory, and what it comes to first

`search` is the plain recursion. It remembers the nodes between the start and the one it is at, and nothing of those it
is through with, so it may go through an ancestor many times. A walk, which goes through every node once, finds what it
finds: a node that was left is barren, with neither an attribute nor a defect at or above it (`nearest_refines_search`).
The search comes to a node past parents that are barren and takes no notice of those behind (`Leads`); what it gives is
what there is at the node that it comes to (`search_eq_iff`).
-/
namespace DeployInventory
namespace Hierarchy

/-- **The search without memory**: the attribute of the node, else the first found at one of its parents, in the order
of their declaration. `path` leads from the child that declares the node back to the start. -/
def search {α : Type} (h : Hierarchy) (own : String → Option α) (path : List String) (n : String) :
    Except LineageError (Option α) :=
  if hp : n ∈ path then .error (.cyclic (cycleOf path n))
  else match hn : h.find? n with
    | none => .error (.missingNode n path.head?)
    | some parents =>
      have _fewer : (unmet h.names (n :: path)).length < (unmet h.names path).length :=
        unmet_cons_lt (NameMap.mem_names.2 ⟨_, hn⟩) hp
      match own n with
      | some a => .ok (some a)
      | none => parents.findSomeM? (search h own (n :: path))
termination_by (unmet h.names path).length

/-- **Nothing at or above the node ends a search**: no attribute, and no defect. -/
structure Barren {α : Type} (h : Hierarchy) (own : String → Option α) (n : String) : Prop where
  sound : h.Sound n
  bare : ∀ a, h.AtOrAbove a n → own a = none

/-- **The way of the search**: it comes to a node along a path, past parents that are barren. Of the parents behind
those that it takes nothing is asked: they may be missing or lead in circles. -/
inductive Leads {α : Type} (h : Hierarchy) (own : String → Option α) (start : String) :
    (path : List String) → (n : String) → Prop where
  | start : Leads h own start [] start
  | step {path before after : List String} {n p : String} (way : Leads h own start path n) (fresh : n ∉ path)
      (bare : own n = none) (declares : h.find? n = some (before ++ p :: after))
      (barren : ∀ q ∈ before, h.Barren own q) : Leads h own start (n :: path) p

/-- What ends a search at a node that it comes to along a path. -/
inductive Met {α : Type} (h : Hierarchy) (own : String → Option α) (path : List String) (n : String) :
    Except LineageError (Option α) → Prop where
  | found {a : α} (known : n ∈ h.names) (has : own n = some a) : Met h own path n (.ok (some a))
  | missing (unknown : n ∉ h.names) : Met h own path n (.error (.missingNode n path.head?))
  | back (again : n ∈ path) : Met h own path n (.error (.cyclic (cycleOf path n)))

variable {α : Type} {h : Hierarchy} {own : String → Option α} {start n : String} {path parents : List String}

/-! ## The steps of the search -/

theorem search_of_mem (hp : n ∈ path) : search h own path n = .error (.cyclic (cycleOf path n)) := by
  rw [search, dif_pos hp]

theorem search_of_missing (hp : n ∉ path) (hn : h.find? n = none) :
    search h own path n = .error (.missingNode n path.head?) := by
  rw [search, dif_neg hp]
  split
  · rfl
  · rename_i hk
    rw [hn] at hk
    cases hk

theorem search_of_known (hp : n ∉ path) (hn : h.find? n = some parents) :
    search h own path n = match own n with
      | some a => .ok (some a)
      | none => parents.findSomeM? (search h own (n :: path)) := by
  rw [search, dif_neg hp]
  split
  · rename_i hk
    rw [hn] at hk
    cases hk
  · rename_i ps hk
    rw [Option.some.inj (hn.symm.trans hk)]

theorem search_of_own {a : α} (hp : n ∉ path) (hn : h.find? n = some parents) (ha : own n = some a) :
    search h own path n = .ok (some a) := by
  rw [search_of_known hp hn, ha]

theorem search_of_parents (hp : n ∉ path) (hn : h.find? n = some parents) (ha : own n = none) :
    search h own path n = parents.findSomeM? (search h own (n :: path)) := by
  rw [search_of_known hp hn, ha]

/-! ## Barren nodes -/

theorem Barren.parent {p : String} (hb : h.Barren own n) (hp : h.IsParent p n) : h.Barren own p :=
  ⟨hb.sound.parent hp, fun a ha => hb.bare a (ha.of_parent hp)⟩

/-- **A node is barren when its parents are** and do not inherit from it. -/
theorem barren_iff_parents (hn : h.find? n = some parents) (ha : own n = none) :
    h.Barren own n ↔ ∀ p ∈ parents, h.Barren own p ∧ ¬ h.AtOrAbove n p := by
  constructor
  · intro hb p hp
    have hparent : h.IsParent p n := (isParent_iff hn).2 hp
    exact ⟨hb.parent hparent, hb.sound.not_atOrAbove_parent hparent⟩
  · intro hps
    refine ⟨⟨fun a hanc => ?known, fun a hanc => ?acyclic⟩, fun a hanc => ?bare⟩
    case known =>
      rcases (atOrAbove_iff_of_find? hn).1 hanc with rfl | ⟨p, hp, hap⟩
      · exact NameMap.mem_names.2 ⟨_, hn⟩
      · exact (hps p hp).1.sound.known a hap
    case acyclic =>
      rcases (atOrAbove_iff_of_find? hn).1 hanc with rfl | ⟨p, hp, hap⟩
      · intro hself
        obtain ⟨p, hp, hap⟩ := isAncestor_iff.1 hself
        exact (hps p ((isParent_iff hn).1 hp)).2 hap
      · exact (hps p hp).1.sound.acyclic a hap
    case bare =>
      rcases (atOrAbove_iff_of_find? hn).1 hanc with rfl | ⟨p, hp, hap⟩
      · exact ha
      · exact (hps p hp).1.bare a hap

/-- **A search gives nothing just at barren nodes** that inherit from none on the path. -/
theorem search_eq_ok_none_iff (path : List String) (n : String) :
    search h own path n = .ok none ↔ h.Barren own n ∧ ∀ q ∈ path, ¬ h.AtOrAbove q n := by
  induction path, n using search.induct h own with
  | case1 path n hp =>
    rw [search_of_mem hp]
    exact ⟨fun hs => (by cases hs), fun hb => absurd .refl (hb.2 n hp)⟩
  | case2 path n hp hn =>
    rw [search_of_missing hp hn]
    refine ⟨fun hs => (by cases hs), fun hb => ?_⟩
    obtain ⟨ps, hps⟩ := hb.1.sound.find?
    rw [hn] at hps
    cases hps
  | case3 path n hp ps hn _ a ha =>
    rw [search_of_own hp hn ha]
    refine ⟨fun hs => (by cases hs), fun hb => ?_⟩
    rw [hb.1.bare n .refl] at ha
    cases ha
  | case4 path n hp ps hn _ ha ih =>
    rw [search_of_parents hp hn ha, findSomeM?_eq_ok_none_iff, barren_iff_parents hn ha]
    simp only [ih, List.forall_mem_cons, atOrAbove_iff_of_find? hn, not_or, not_exists, not_and]
    constructor
    · intro hps
      exact ⟨fun p hp => ⟨(hps p hp).1, (hps p hp).2.1⟩, fun q hq => ⟨fun hqn => hp (hqn ▸ hq),
        fun p hpp => (hps p hpp).2.2 q hq⟩⟩
    · rintro ⟨hps, hpath⟩ p hpp
      exact ⟨(hps p hpp).1, (hps p hpp).2, fun q hq => (hpath q hq).2 p hpp⟩

/-! ## Walks and the search -/

/-- What a walk tells of a search: what stopped it. -/
def Outcome.found? : Outcome α → Option α
  | .stopped a => some a
  | .left _ => none

/-- **A walk through parents finds what the search finds at the first of them that decides**, once the nodes left before
it are linear, have no attribute and are not on the path. -/
theorem map_found?_walkParents (child : String) (path parents left : List String) (hchild : path.head? = some child)
    (hlin : Linear h left) (hbare : ∀ n ∈ left, own n = none) (hdisj : ∀ n ∈ path, n ∉ left) :
    (walkParents h own child path parents left).map Outcome.found? = parents.findSomeM? (search h own path) := by
  fun_induction walkParents h own child path parents left with
  | case1 child path left => rfl
  | case2 child path p rest left hl ih =>
    -- the search goes through the node again, and finds nothing: it is barren
    have hbarren : h.Barren own p := ⟨hlin.sound hl, fun a ha => hbare a (hlin.mem_of_atOrAbove hl ha)⟩
    have hsearch : search h own path p = .ok none :=
      (search_eq_ok_none_iff path p).2 ⟨hbarren, fun q hq ha => hdisj q hq (hlin.mem_of_atOrAbove hl ha)⟩
    rw [findSomeM?_cons_none hsearch]
    exact ih hchild hlin hbare hdisj
  | case3 child path p rest left hl hp =>
    have hsearch : search h own path p = .error (.cyclic (cycleOf path p)) := search_of_mem hp
    rw [findSomeM?_cons_ne (by simp [hsearch]), hsearch]
    rfl
  | case4 child path p rest left hl hp hn =>
    have hsearch : search h own path p = .error (.missingNode p path.head?) := search_of_missing hp hn
    rw [findSomeM?_cons_ne (by simp [hsearch]), hsearch, hchild]
    rfl
  | case5 child path p rest left hl hp ps hn _ a ha =>
    have hsearch : search h own path p = .ok (some a) := search_of_own hp hn ha
    rw [findSomeM?_cons_ne (by simp [hsearch]), hsearch]
    rfl
  | case6 child path p rest left hl hp ps hn _ ha e he ih =>
    have hsearch : search h own path p = .error e := by
      rw [search_of_parents hp hn ha, ← ih rfl hlin hbare (List.forall_mem_cons.2 ⟨hl, hdisj⟩), he]
      rfl
    rw [findSomeM?_cons_ne (by simp [hsearch]), hsearch]
    rfl
  | case7 child path p rest left hl hp ps hn _ ha a he ih =>
    have hsearch : search h own path p = .ok (some a) := by
      rw [search_of_parents hp hn ha, ← ih rfl hlin hbare (List.forall_mem_cons.2 ⟨hl, hdisj⟩), he]
      rfl
    rw [findSomeM?_cons_ne (by simp [hsearch]), hsearch]
    rfl
  | case8 child path p rest left hl hp ps hn _ ha above hup ihUp ihNext =>
    have hsearch : search h own path p = .ok none := by
      rw [search_of_parents hp hn ha, ← ihUp rfl hlin hbare (List.forall_mem_cons.2 ⟨hl, hdisj⟩), hup]
      rfl
    have hbarren : h.Barren own p := ((search_eq_ok_none_iff path p).1 hsearch).1
    have hclimb : Climb h (p :: path) ps left above := climb_of_walkParents hup
    rw [findSomeM?_cons_none hsearch]
    refine ihNext hchild ?linear ?bare ?disjoint
    case linear =>
      exact ⟨hclimb.avoids_path p List.mem_cons_self hl, ⟨ps, hn, hclimb.parents_subset⟩, hclimb.linear hlin⟩
    case bare =>
      refine List.forall_mem_cons.2 ⟨ha, fun n hnabove => ?_⟩
      rcases hclimb.mem_done n hnabove with hnl | ⟨q, hq, hnq⟩
      · exact hbare n hnl
      · exact hbarren.bare n (hnq.of_parent ⟨ps, hn, hq⟩)
    case disjoint =>
      intro n hnpath hndone
      rcases List.mem_cons.1 hndone with rfl | hnabove
      · exact hp hnpath
      · exact hclimb.avoids_path n (List.mem_cons_of_mem _ hnpath) (hdisj n hnpath) hnabove

theorem map_found?_walk (h : Hierarchy) (own : String → Option α) (start : String) :
    (walk h own start).map Outcome.found? = search h own [] start := by
  unfold walk
  cases hn : h.find? start with
  | none =>
    rw [search_of_missing List.not_mem_nil hn]
    rfl
  | some parents =>
    cases ha : own start with
    | some a =>
      rw [search_of_own List.not_mem_nil hn ha]
      rfl
    | none =>
      rw [search_of_parents List.not_mem_nil hn ha]
      exact map_found?_walkParents start [start] parents [] rfl trivial (by simp) (by simp)

/-- **The nearest attribute is what the search without memory finds**, and the error is the one that it runs into. -/
theorem nearest_eq_search (h : Hierarchy) (own : String → Option α) (start : String) :
    h.nearest own start = search h own [] start := by
  rw [← map_found?_walk, nearest]
  cases walk h own start with
  | error e => rfl
  | ok out =>
    cases out with
    | stopped a => rfl
    | left nodes => rfl

/-! ## The way of the search -/

namespace Leads

theorem parentPath (way : h.Leads own start path n) : h.ParentPath start (n :: path) := by
  induction way with
  | start => exact .singleton
  | step _ _ _ declares _ ih => exact ih.cons ⟨_, declares, by simp⟩

theorem nodup (way : h.Leads own start path n) : path.Nodup := by
  induction way with
  | start => exact List.nodup_nil
  | step _ fresh _ _ _ ih => exact List.nodup_cons.2 ⟨fresh, ih⟩

theorem passed (way : h.Leads own start path n) : ∀ m ∈ path, m ∈ h.names ∧ own m = none := by
  induction way with
  | start => exact fun m hm => absurd hm List.not_mem_nil
  | step _ _ bare declares _ ih => exact List.forall_mem_cons.2 ⟨⟨NameMap.mem_names.2 ⟨_, declares⟩, bare⟩, ih⟩

/-- **What the search gives at a node that it comes to, it gives at its start**, unless that is nothing. -/
theorem search_eq (way : h.Leads own start path n) (hne : search h own path n ≠ .ok none) :
    search h own [] start = search h own path n := by
  induction way with
  | start => rfl
  | @step path before after n p way fresh bare declares barren ih =>
    have hpath : h.ParentPath start (n :: path) := way.parentPath
    have hbefore : ∀ q ∈ before, search h own (n :: path) q = .ok none := by
      intro q hq
      have hsound : h.Sound q := (barren q hq).sound
      refine (search_eq_ok_none_iff _ q).2 ⟨barren q hq, fun m hm hmq => ?_⟩
      -- a node on the path at or above its parent `q` would inherit from itself, through `q`
      have hnm : h.AtOrAbove n m := by
        rcases List.mem_cons.1 hm with rfl | hm
        · exact .refl
        · exact hpath.atOrAbove_of_mem m hm
      have hparent : h.IsParent q n := ⟨_, declares, by simp [hq]⟩
      exact hsound.acyclic m hmq ((Relation.TransGen.tail' hmq hparent).trans_left hnm)
    have hstep : search h own path n = search h own (n :: path) p := by
      rw [search_of_parents fresh declares bare, findSomeM?_append_none hbefore, findSomeM?_cons_ne hne]
    rw [← hstep] at hne ⊢
    exact ih hne

end Leads

theorem Met.search_eq {r : Except LineageError (Option α)} (hmet : h.Met own path n r)
    (way : h.Leads own start path n) : search h own path n = r := by
  cases hmet with
  | found known has =>
    obtain ⟨ps, hn⟩ := NameMap.mem_names.1 known
    refine search_of_own (fun hp => ?_) hn has
    rw [(way.passed n hp).2] at has
    cases has
  | missing unknown =>
    exact search_of_missing (fun hp => unknown (way.passed n hp).1) (NameMap.not_mem_names.1 unknown)
  | back again => exact search_of_mem again

theorem Met.ne_none {r : Except LineageError (Option α)} (hmet : h.Met own path n r) : r ≠ .ok none := by
  cases hmet <;> simp

/-- **A search that gives something or fails has come to where that is met.** -/
theorem exists_leads_met (way : h.Leads own start path n) (hne : search h own path n ≠ .ok none) :
    ∃ path' m, h.Leads own start path' m ∧ h.Met own path' m (search h own path n) := by
  induction path, n using search.induct h own with
  | case1 path n hp =>
    rw [search_of_mem hp]
    exact ⟨path, n, way, .back hp⟩
  | case2 path n hp hn =>
    rw [search_of_missing hp hn]
    exact ⟨path, n, way, .missing (NameMap.not_mem_names.2 hn)⟩
  | case3 path n hp ps hn _ a ha =>
    rw [search_of_own hp hn ha]
    exact ⟨path, n, way, .found (NameMap.mem_names.2 ⟨ps, hn⟩) ha⟩
  | case4 path n hp ps hn _ ha ih =>
    rw [search_of_parents hp hn ha] at hne ⊢
    obtain ⟨before, p, after, rfl, hbefore, hdecides⟩ := exists_of_findSomeM?_ne hne
    rw [← hdecides] at hne ⊢
    exact ih p (way.step hp ha hn fun q hq => ((search_eq_ok_none_iff _ q).1 (hbefore q hq)).1) hne

/-- **What a search gives, other than nothing, is what there is at the node that it comes to.** -/
theorem search_eq_iff {r : Except LineageError (Option α)} (hr : r ≠ .ok none) :
    search h own [] start = r ↔ ∃ path n, h.Leads own start path n ∧ h.Met own path n r := by
  constructor
  · rintro rfl
    exact exists_leads_met .start hr
  · rintro ⟨path, n, way, hmet⟩
    have hsearch : search h own path n = r := hmet.search_eq way
    rw [← hsearch] at hr ⊢
    exact way.search_eq hr

/-- **The nearest attribute is what the search without memory finds**: the same value, nothing, or the same error.
Nothing is found just at barren nodes. What is found belongs to the end of a path of declared parents on which no
earlier node has an attribute, and it is found wherever the way of the search leads to it, whatever the parents behind
those on the way are. -/
theorem nearest_refines_search {α : Type} (h : Hierarchy) (own : String → Option α) (start : String) :
    h.nearest own start = search h own [] start ∧
    (h.nearest own start = .ok none ↔ h.Barren own start) ∧
    (∀ a, h.nearest own start = .ok (some a) →
      ∃ path n, h.ParentPath start (n :: path) ∧ n ∈ h.names ∧ own n = some a ∧ ∀ m ∈ path, own m = none) ∧
    ∀ a, h.nearest own start = .ok (some a) ↔ ∃ path n, h.Leads own start path n ∧ n ∈ h.names ∧ own n = some a := by
  have hway : ∀ a, h.nearest own start = .ok (some a) ↔
      ∃ path n, h.Leads own start path n ∧ n ∈ h.names ∧ own n = some a := by
    intro a
    rw [nearest_eq_search, search_eq_iff (by simp)]
    constructor
    · rintro ⟨path, n, way, hmet⟩
      cases hmet with
      | found known has => exact ⟨path, n, way, known, has⟩
    · rintro ⟨path, n, way, known, has⟩
      exact ⟨path, n, way, .found known has⟩
  refine ⟨nearest_eq_search h own start, ?_, fun a ha => ?_, hway⟩
  · rw [nearest_eq_search, search_eq_ok_none_iff]
    simp
  · obtain ⟨path, n, way, known, has⟩ := (hway a).1 ha
    exact ⟨path, n, way.parentPath, known, has, fun m hm => (way.passed m hm).2⟩

/-- A node whose second parent has the attribute; behind it come a parent that does not exist and one that leads back,
and it declares one of these itself. -/
def frayed : Hierarchy :=
  .ofList [("app", ["web", "jobs", "ghost", "loop"]), ("web", ["base"]), ("jobs", ["ghost"]), ("base", []),
    ("loop", ["app"])]

def port (n : String) : Option Nat := if n = "jobs" then some 80 else none

theorem frayed_refines_search : frayed.nearest port "app" = .ok (some 80) ∧
    search frayed port [] "app" = .ok (some 80) ∧
    (∃ path n, frayed.ParentPath "app" (n :: path) ∧ n ∈ frayed.names ∧ port n = some 80 ∧ ∀ m ∈ path, port m = none) ∧
    frayed.nearest port "web" = .ok none ∧ frayed.Barren port "web" := by
  have happ : frayed.nearest port "app" = .ok (some 80) := by cbv
  have hweb : frayed.nearest port "web" = .ok none := by cbv
  obtain ⟨hsearch, -, hpath, -⟩ := nearest_refines_search frayed port "app"
  obtain ⟨-, hbarren, -⟩ := nearest_refines_search frayed port "web"
  exact ⟨happ, hsearch.symm.trans happ, hpath 80 happ, hweb, hbarren.1 hweb⟩

end Hierarchy
end DeployInventory
