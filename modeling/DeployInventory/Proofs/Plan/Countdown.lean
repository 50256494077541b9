import DeployInventory.Proofs.Plan.Readiness
import DeployInventory.Proofs.Repetition
import Mathlib.Logic.Function.Basic
/-!
# Proofs.Plan.Countdown — the order of dependencies by counting

Every project counts those that it waits for, and a project that is taken lowers the counts of those that wait for it;
who comes to zero is ready. `step` takes the first ready project. Between two steps each count is the number of
predecessors not taken yet (`Tracks`), so a count that is lowered is not zero, and the projects are taken in the order
of `emit` (`ends_start_iff_emit`).
-/
namespace DeployInventory

open DependencyNode

/-- The arcs of a plan in the order in which its items list them. -/
def listedArcs (items : List ExpandedItem) : List (String × String) :=
  items.flatMap fun e =>
    match e.project with
    | none => []
    | some p => (e.item.dependsOn.filter ((projects items).contains ·)).map (·, p)

/-- **The arcs of a plan**, each once. -/
def arcs (items : List ExpandedItem) : List (String × String) := (listedArcs items).eraseDups

/-- The projects that a project waits for. -/
def predecessors (items : List ExpandedItem) (p : String) : List String :=
  ((arcs items).filter (·.2 == p)).map Prod.fst

/-- The projects that wait for a project. -/
def successors (items : List ExpandedItem) (d : String) : List String :=
  ((arcs items).filter (·.1 == d)).map Prod.snd

/-- **The state of the count.** -/
structure Countdown where
  /-- The projects taken, in the order in which they are. -/
  taken : List String
  /-- How many of those that a project waits for are left. -/
  waiting : String → Nat
  /-- The set of the ready projects. -/
  ready : List String

namespace Countdown

inductive Stage where
  | running (s : Countdown)
  /-- No project is ready any more. -/
  | ended (taken : List String)
  /-- A count of zero would have been lowered. -/
  | belowZero
deriving Inhabited

/-- **Lowers the count of a project by one**, which it has to have; at zero the project is ready. -/
def lower (s : Countdown) (p : String) : Option Countdown :=
  match s.waiting p with
  | 0 => none
  | left + 1 =>
    some { s with
      waiting := Function.update s.waiting p left
      ready := if left = 0 then s.ready.insert p else s.ready }

/-- **One turn of the loop**: takes the ready project that the plan names first and lowers the counts of those that wait
for it. -/
def step (items : List ExpandedItem) (s : Countdown) : Stage :=
  match (projects items).find? (s.ready.contains ·) with
  | none => .ended s.taken
  | some p =>
    match (successors items p).foldlM lower
      { s with taken := s.taken ++ [p], ready := s.ready.filter (· != p) } with
    | none => .belowZero
    | some next => .running next

def start (items : List ExpandedItem) : Countdown where
  taken := []
  waiting p := (predecessors items p).length
  ready := (projects items).filter fun p => (predecessors items p).length == 0

/-- **The loop comes to a stage where it stops**, after finitely many turns. -/
inductive Ends (items : List ExpandedItem) : Stage → Stage → Prop where
  | ended (taken : List String) : Ends items (.ended taken) (.ended taken)
  | belowZero : Ends items .belowZero .belowZero
  | running {s : Countdown} {last : Stage} (next : Ends items (step items s) last) : Ends items (.running s) last

/-- Some turns lead from one state to another. -/
def Reaches (items : List ExpandedItem) : Countdown → Countdown → Prop :=
  Relation.ReflTransGen fun s t => step items s = .running t

/-- **The state in which the loop stops.** -/
structure IsFinal (items : List ExpandedItem) (s : Countdown) : Prop where
  reached : Reaches items (start items) s
  stops : step items s = .ended s.taken

variable {items : List ExpandedItem} {d p : String}

theorem Ends.unique {t last last' : Stage} (h : Ends items t last) (h' : Ends items t last') : last = last' := by
  induction h with
  | ended taken => cases h'; rfl
  | belowZero => cases h'; rfl
  | running _ ih =>
    cases h' with
    | running next => exact ih next

/-! ## Arcs, each once -/

theorem nodup_arcs (items : List ExpandedItem) : (arcs items).Nodup := nodup_eraseDups _

theorem mem_arcs : (d, p) ∈ arcs items ↔ IsArc items d p := by
  unfold arcs listedArcs IsArc IsDependency
  rw [List.mem_eraseDups, List.mem_flatMap]
  constructor
  · rintro ⟨e, he, h⟩
    cases hp : e.project with
    | none => simp [hp] at h
    | some q =>
      rw [hp] at h
      obtain ⟨d', hd, heq⟩ := List.mem_map.1 h
      obtain ⟨rfl, rfl⟩ := Prod.mk.inj heq
      obtain ⟨hdep, hlisted⟩ := List.mem_filter.1 hd
      exact ⟨⟨e, he, hp, hdep⟩, by simpa using hlisted⟩
  · rintro ⟨⟨e, he, hp, hdep⟩, hlisted⟩
    refine ⟨e, he, ?_⟩
    rw [hp]
    exact List.mem_map_of_mem (List.mem_filter.2 ⟨hdep, by simpa using hlisted⟩)

theorem mem_predecessors : d ∈ predecessors items p ↔ IsArc items d p := by
  unfold predecessors
  rw [← mem_arcs, List.mem_map]
  simp

theorem mem_successors : p ∈ successors items d ↔ IsArc items d p := by
  unfold successors
  rw [← mem_arcs, List.mem_map]
  simp

theorem nodup_predecessors (items : List ExpandedItem) (p : String) : (predecessors items p).Nodup := by
  refine List.Nodup.map_on ?_ ((nodup_arcs items).filter _)
  rintro ⟨d, q⟩ hd ⟨d', q'⟩ hd' rfl
  simp only [List.mem_filter, beq_iff_eq] at hd hd'
  rw [hd.2, hd'.2]

theorem nodup_successors (items : List ExpandedItem) (d : String) : (successors items d).Nodup := by
  refine List.Nodup.map_on ?_ ((nodup_arcs items).filter _)
  rintro ⟨q, p⟩ hp ⟨q', p'⟩ hp' rfl
  simp only [List.mem_filter, beq_iff_eq] at hp hp'
  rw [hp.2, hp'.2]

/-! ## What a turn does to the counts -/

/-- **Counts that are not zero can be lowered**: each by one, and those that were one are ready then. -/
theorem exists_lowerAll : ∀ {ps : List String} {s : Countdown}, ps.Nodup → (∀ p ∈ ps, s.waiting p ≠ 0) →
    ∃ next, ps.foldlM lower s = some next ∧ next.taken = s.taken ∧
      (∀ p, next.waiting p = if p ∈ ps then s.waiting p - 1 else s.waiting p) ∧
      ∀ p, p ∈ next.ready ↔ p ∈ s.ready ∨ p ∈ ps ∧ s.waiting p = 1
  | [], s, _, _ => ⟨s, rfl, rfl, by simp, by simp⟩
  | q :: ps, s, hnd, hpos => by
    obtain ⟨hq, hnd⟩ := List.nodup_cons.1 hnd
    obtain ⟨left, hleft⟩ := Nat.exists_eq_succ_of_ne_zero (hpos q List.mem_cons_self)
    have hne : ∀ p ∈ ps, p ≠ q := fun p hp hpq => hq (hpq ▸ hp)
    obtain ⟨next, hnext, htaken, hwaiting, hready⟩ := exists_lowerAll
      (s := ⟨s.taken, Function.update s.waiting q left, if left = 0 then s.ready.insert q else s.ready⟩) hnd
      fun p hp => by
        simp only [Function.update_of_ne (hne p hp)]
        exact hpos p (List.mem_cons_of_mem _ hp)
    refine ⟨next, ?_, htaken, fun p => ?_, fun p => ?_⟩
    · simp only [List.foldlM_cons, lower, hleft]
      exact hnext
    · rw [hwaiting p]
      by_cases hpq : p = q
      · subst hpq
        simp [hq, hleft]
      · simp [hpq]
    · rw [hready p]
      by_cases hpq : p = q
      · subst hpq
        cases left <;> simp [hq, hleft]
      · cases left <;> simp [hpq]

variable {s : Countdown}

/-- **What holds between two turns**: a count is the number of predecessors not taken, which is zero for the projects
taken, and the ready ones are the others with a count of zero. -/
structure Tracks (items : List ExpandedItem) (s : Countdown) : Prop where
  waiting : ∀ p, s.waiting p = ((predecessors items p).filter (!s.taken.contains ·)).length
  settled : ∀ p ∈ s.taken, s.waiting p = 0
  ready : ∀ p, p ∈ s.ready ↔ p ∈ projects items ∧ p ∉ s.taken ∧ s.waiting p = 0

theorem tracks_start (items : List ExpandedItem) : Tracks items (start items) := by
  refine ⟨fun p => ?_, by simp [start], fun p => by simp [start]⟩
  have hall : (predecessors items p).filter (!([] : List String).contains ·) = predecessors items p :=
    List.filter_eq_self.2 fun _ _ => rfl
  exact congrArg List.length hall.symm

theorem Tracks.waiting_eq_zero_iff (h : Tracks items s) : s.waiting p = 0 ↔ ∀ d, IsArc items d p → d ∈ s.taken := by
  rw [h.waiting, List.length_eq_zero_iff, List.filter_eq_nil_iff]
  simp [mem_predecessors]

theorem Tracks.mem_ready_iff (h : Tracks items s) : p ∈ s.ready ↔ IsReady items s.taken p := by
  rw [h.ready, h.waiting_eq_zero_iff]
  exact ⟨fun ⟨hp, hfresh, hfreed⟩ => ⟨hp, hfresh, hfreed⟩, fun h => ⟨h.listed, h.fresh, h.freed⟩⟩

theorem Tracks.find?_ready (h : Tracks items s) :
    (projects items).find? (s.ready.contains ·) = (projects items).find? (isReady items s.taken) := by
  refine List.find?_congr fun p hp => ?_
  rw [Bool.eq_iff_iff, isReady_iff hp, ← h.mem_ready_iff, List.contains_iff_mem]

/-- A project that is taken leaves one predecessor less to those that wait for it. -/
theorem length_filter_append {l taken : List String} (hl : l.Nodup) (hfresh : p ∉ taken) :
    (l.filter (!(taken ++ [p]).contains ·)).length =
      if p ∈ l then (l.filter (!taken.contains ·)).length - 1 else (l.filter (!taken.contains ·)).length := by
  have herase : l.filter (!(taken ++ [p]).contains ·) = (l.filter (!taken.contains ·)).erase p := by
    rw [(hl.filter _).erase_eq_filter, List.filter_filter]
    refine List.filter_congr fun q _ => ?_
    rw [List.contains_append, List.contains_cons, List.contains_nil, Bool.or_false, Bool.not_or, Bool.and_comm]
    rfl
  have hmem : p ∈ l.filter (!taken.contains ·) ↔ p ∈ l := by simp [hfresh]
  rw [herase, List.length_erase, if_congr hmem rfl rfl]

/-- **A turn takes the first ready project**, and no count that it lowers is zero. -/
theorem Tracks.step_of_find? (h : Tracks items s) (hp : (projects items).find? (isReady items s.taken) = some p) :
    ∃ next, step items s = .running next ∧ next.taken = s.taken ++ [p] ∧ Tracks items next := by
  have hnext := (isNext_of_find? hp).ready
  have hzero : s.waiting p = 0 := h.waiting_eq_zero_iff.2 hnext.freed
  have hpos : ∀ q ∈ successors items p, s.waiting q ≠ 0 := fun q hq h0 =>
    hnext.fresh (h.waiting_eq_zero_iff.1 h0 p (mem_successors.1 hq))
  obtain ⟨next, hlower, htaken, hwaiting, hready⟩ := exists_lowerAll
    (s := { s with taken := s.taken ++ [p], ready := s.ready.filter (· != p) }) (nodup_successors items p) hpos
  have hkeep : ∀ q, s.waiting q = 0 → next.waiting q = 0 := fun q h0 => by
    rw [hwaiting q, if_neg fun hq => hpos q hq h0]
    exact h0
  refine ⟨next, ?_, htaken, fun q => ?_, fun q hq => ?_, fun q => ?_⟩
  · unfold step
    rw [h.find?_ready, hp]
    simp only
    rw [hlower]
  · rw [htaken, length_filter_append (nodup_predecessors items q) hnext.fresh, hwaiting q, ← h.waiting]
    exact if_congr (mem_successors.trans mem_predecessors.symm) rfl rfl
  · rw [htaken, List.mem_append, List.mem_singleton] at hq
    rcases hq with hq | rfl
    · exact hkeep q (h.settled q hq)
    · exact hkeep q hzero
  · rw [hready q, htaken, List.mem_append, List.mem_singleton, List.mem_filter, h.ready]
    constructor
    · rintro (⟨⟨hq, hfresh, h0⟩, hne⟩ | ⟨hq, h1⟩)
      · exact ⟨hq, not_or.2 ⟨hfresh, by simpa using hne⟩, hkeep q h0⟩
      · obtain ⟨e, he, heq, -⟩ := (mem_successors.1 hq).1
        refine ⟨mem_projects.2 ⟨e, he, heq⟩, not_or.2 ⟨fun htaken => hpos q hq (h.settled q htaken), ?_⟩, ?_⟩
        · rintro rfl
          exact hpos q hq hzero
        · rw [hwaiting q, if_pos hq, h1]
    · rintro ⟨hq, hnot, h0⟩
      obtain ⟨hfresh, hne⟩ := not_or.1 hnot
      rw [hwaiting q] at h0
      by_cases hsucc : q ∈ successors items p
      · rw [if_pos hsucc, Nat.sub_eq_zero_iff_le] at h0
        exact .inr ⟨hsucc, Nat.le_antisymm h0 (Nat.pos_of_ne_zero (hpos q hsucc))⟩
      · rw [if_neg hsucc] at h0
        exact .inl ⟨⟨hq, hfresh, h0⟩, by simpa using hne⟩

theorem Tracks.step_of_none (h : Tracks items s) (hnone : (projects items).find? (isReady items s.taken) = none) :
    step items s = .ended s.taken := by
  unfold step
  rw [h.find?_ready, hnone]

/-- **When the loop stops, the counts of the projects left are not zero.** -/
theorem Tracks.waiting_ne_zero_iff (h : Tracks items s) (hstops : step items s = .ended s.taken)
    (hp : p ∈ projects items) : s.waiting p ≠ 0 ↔ p ∉ s.taken := by
  refine ⟨fun hleft htaken => hleft (h.settled p htaken), fun hfresh h0 => ?_⟩
  have hready : p ∈ s.ready := (h.ready p).2 ⟨hp, hfresh, h0⟩
  unfold step at hstops
  split at hstops
  · rename_i hnone
    exact List.find?_eq_none.1 hnone p hp (List.contains_iff_mem.2 hready)
  · split at hstops <;> cases hstops

/-- **When the loop stops, every project left has a predecessor that is left.** -/
theorem Tracks.exists_predecessor (h : Tracks items s) (hstops : step items s = .ended s.taken)
    (hleft : s.waiting p ≠ 0) : ∃ d, IsArc items d p ∧ s.waiting d ≠ 0 := by
  rw [ne_eq, h.waiting_eq_zero_iff] at hleft
  push Not at hleft
  obtain ⟨d, harc, hfresh⟩ := hleft
  exact ⟨d, harc, (h.waiting_ne_zero_iff hstops harc.2).2 hfresh⟩

/-- **The loop stops after it has taken the projects that `emit` takes.** -/
theorem Tracks.exists_reaches {left stuck : List DependencyNode} {taken : List String}
    (hemits : Emits left taken stuck) : ∀ {s : Countdown}, Tracks items s → left = leftAfter items s.taken →
      ∃ t, Reaches items s t ∧ Tracks items t ∧ t.taken = s.taken ++ taken ∧ step items t = .ended t.taken := by
  induction hemits with
  | stop hnone =>
    rintro s h rfl
    rw [ready?_leftAfter, Option.map_eq_none_iff] at hnone
    exact ⟨s, .refl, h, (List.append_nil _).symm, h.step_of_none hnone⟩
  | @take left stuck n taken hready _ ih =>
    rintro s h rfl
    rw [ready?_leftAfter, Option.map_eq_some_iff] at hready
    obtain ⟨p, hp, rfl⟩ := hready
    obtain ⟨next, hstep, htaken, hnext⟩ := h.step_of_find? hp
    have hnode : node items p ∈ ofItems items := List.mem_map_of_mem (List.mem_of_find?_eq_some hp)
    obtain ⟨t, hreaches, ht, htaken', hends⟩ := ih hnext (by rw [htaken]; exact erase_leftAfter hnode)
    rw [htaken, List.append_assoc] at htaken'
    exact ⟨t, .head hstep hreaches, ht, htaken', hends⟩

theorem Reaches.ends {t : Countdown} {last : Stage} (h : Reaches items s t) (ht : Ends items (step items t) last) :
    Ends items (.running s) last := by
  induction h using Relation.ReflTransGen.head_induction_on with
  | refl => exact .running ht
  | head hstep _ ih =>
    refine .running ?_
    rw [hstep]
    exact ih

/-- The state in which the loop stops: it has taken what `emit` takes, and has the nodes left that `emit` leaves. -/
theorem exists_isFinal (items : List ExpandedItem) : ∃ s, IsFinal items s ∧ Tracks items s ∧
    s.taken = (emit (ofItems items)).1 ∧ (emit (ofItems items)).2 = leftAfter items s.taken := by
  have hemits := emits_emit (ofItems items)
  obtain ⟨s, hreaches, hs, htaken, hstops⟩ := (tracks_start items).exists_reaches hemits leftAfter_nil.symm
  obtain ⟨hleft, -⟩ := hemits.eq_leftAfter [] leftAfter_nil.symm
  exact ⟨s, ⟨hreaches, hstops⟩, hs, htaken, htaken ▸ hleft⟩

/-- **The loop ends with what `emit` takes**, and so without a count below zero. -/
theorem ends_start_iff_emit (items : List ExpandedItem) (last : Stage) :
    Ends items (.running (start items)) last ↔ last = .ended (emit (ofItems items)).1 := by
  have hends : Ends items (.running (start items)) (.ended (emit (ofItems items)).1) := by
    obtain ⟨s, hfinal, -, htaken, -⟩ := exists_isFinal items
    refine hfinal.reached.ends ?_
    rw [hfinal.stops, htaken]
    exact .ended _
  constructor
  · intro h
    exact h.unique hends
  · rintro rfl
    exact hends

end Countdown

theorem DependencyNode.length_eq_iff (items : List ExpandedItem) :
    (emit (ofItems items)).1.length = (projects items).length ↔ (emit (ofItems items)).2 = [] := by
  have hlength := (emits_emit (ofItems items)).perm.length_eq
  rw [map_project_ofItems, List.length_append, List.length_map] at hlength
  rw [← List.length_eq_zero_iff]
  omega

theorem dependencyOrder_eq_ok_iff {items : List ExpandedItem} {order : List String} :
    dependencyOrder items = .ok order ↔
      order = (emit (ofItems items)).1 ∧ (emit (ofItems items)).1.length = (projects items).length := by
  rw [length_eq_iff]
  unfold dependencyOrder
  split
  · rename_i taken hemit
    simp [hemit, eq_comm]
  · rename_i taken n stuck hemit
    simp [hemit]

/-- **The order of a plan's dependencies.** The loop that counts ends, never lowers a count of zero, and gives the order
when it takes all projects. There is an order exactly when no arcs form a cycle. An order has every project of the plan
once, goes along all arcs, and each of its projects is the ready one that the plan names first. -/
theorem dependencyOrder_canonical (items : List ExpandedItem) :
    (∃ taken, (∀ last, Countdown.Ends items (.running (Countdown.start items)) last ↔ last = .ended taken) ∧
      ∀ order, dependencyOrder items = .ok order ↔ order = taken ∧ taken.length = (projects items).length) ∧
    ((∃ order, dependencyOrder items = .ok order) ↔ IsAcyclic items) ∧
    ∀ order, dependencyOrder items = .ok order →
      order.Perm (projects items) ∧ (∀ d p, IsArc items d p → [d, p].Sublist order) ∧
      ∀ before p after, order = before ++ p :: after → IsNext items before p := by
  refine ⟨⟨(emit (ofItems items)).1, Countdown.ends_start_iff_emit items, fun order => dependencyOrder_eq_ok_iff⟩,
    exists_dependencyOrder_iff, fun order h => ⟨(perm_of_dependencyOrder h).symm, fun d p harc => ?_, ?_⟩⟩
  · exact sublist_of_isDependency h harc.2 harc.1
  · exact fun before p after horder => isNext_of_dependencyOrder h horder

/-- Two entries of one project, a dependency listed twice and one outside the plan. -/
def webItems : List ExpandedItem :=
  [⟨0, some "web", { dependsOn := ["api", "mail", "api"] }⟩, ⟨1, some "api", {}⟩, ⟨2, none, { dependsOn := ["web"] }⟩,
    ⟨3, some "web", { dependsOn := ["db"] }⟩, ⟨4, some "db", {}⟩]

theorem webItems_canonical : dependencyOrder webItems = .ok ["api", "db", "web"] ∧
    Countdown.Ends webItems (.running (Countdown.start webItems)) (.ended ["api", "db", "web"]) ∧
    ["api", "db", "web"].Perm (projects webItems) ∧ IsArc webItems "db" "web" ∧
    ["db", "web"].Sublist ["api", "db", "web"] ∧ IsNext webItems ["api"] "db" := by
  have horder : dependencyOrder webItems = .ok ["api", "db", "web"] := by cbv
  have harc : IsArc webItems "db" "web" :=
    ⟨⟨⟨3, some "web", { dependsOn := ["db"] }⟩, by simp [webItems], rfl, by simp⟩, mem_projects.2
      ⟨⟨4, some "db", {}⟩, by simp [webItems], rfl⟩⟩
  obtain ⟨⟨taken, hends, hok⟩, -, hall⟩ := dependencyOrder_canonical webItems
  obtain ⟨hperm, hforward, hnext⟩ := hall _ horder
  exact ⟨horder, (hends _).2 (congrArg Countdown.Stage.ended ((hok _).1 horder).1), hperm, harc, hforward _ _ harc,
    hnext ["api"] "db" ["web"] rfl⟩

end DeployInventory
