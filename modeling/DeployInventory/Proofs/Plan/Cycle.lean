import DeployInventory.Plan.Order
import DeployInventory.Proofs.Plan.Countdown
import Mathlib.Data.List.Chain
/-!
# Proofs.Plan.Cycle — the cycle that is reported of a plan without an order

When the count stops, the projects left are those whose count is not zero, and each of them has a predecessor with such
a count (`Countdown.Tracks.exists_predecessor`). `step` walks back from a project to the first of these. So a walk
through projects left (`Trail`) never runs out of predecessors, and as there are finitely many of them it comes back to
one that it went through (`Trail.ends_walkBack`). What it has around then is a cycle (`Trail.dependencyCycle`), and
all that is reported is part of it (`dependencyOrder_error_genuine`).
-/
namespace DeployInventory

open DependencyNode

variable {items : List ExpandedItem} {members : List String}

/-- **A cycle of dependencies**, in the order in which they are deployed: each project is that of an item, an item of
each lists the one before it, the last is the first again, and no other comes twice. -/
structure DependencyCycle (items : List ExpandedItem) (members : List String) : Prop where
  two_le : 2 ≤ members.length
  closed : members.getLast? = members.head?
  nodup : members.dropLast.Nodup
  listed : ∀ p ∈ members, ∃ e ∈ items, e.project = some p
  depends : members.IsChain (IsDependency items)

/-- Projects each of which the next one needs, and the last of which the first one needs, make a cycle. -/
theorem dependencyCycle_of_arcs {p : String} {rest : List String} (hnd : (p :: rest).Nodup)
    (hlisted : ∀ q ∈ p :: rest, q ∈ projects items) (hchain : (p :: rest).IsChain (IsArc items))
    (hclosing : ∀ d ∈ (p :: rest).getLast?, IsArc items d p) : DependencyCycle items (p :: rest ++ [p]) where
  two_le := by simp
  closed := by rw [List.getLast?_concat, List.cons_append, List.head?_cons]
  nodup := by rwa [List.dropLast_concat]
  listed := by
    rw [List.forall_mem_append, List.forall_mem_singleton]
    exact ⟨fun q hq => mem_projects.1 (hlisted q hq), mem_projects.1 (hlisted p List.mem_cons_self)⟩
  depends := by
    have harcs : (p :: rest ++ [p]).IsChain (IsArc items) := by
      refine hchain.append (.singleton p) fun d hd q hq => ?_
      cases hq
      exact hclosing d hd
    exact harcs.imp fun _ _ harc => harc.1

theorem DependencyCycle.exists_eq (h : DependencyCycle items members) : ∃ p inner, members = p :: inner ++ [p] := by
  obtain ⟨two_le, closed, -, -, -⟩ := h
  rcases members with - | ⟨p, rest⟩
  · simp at two_le
  · obtain rfl | ⟨inner, q, rfl⟩ := List.eq_nil_or_concat rest
    · simp at two_le
    · rw [List.concat_eq_append, ← List.cons_append, List.getLast?_concat, List.cons_append, List.head?_cons] at closed
      obtain rfl := Option.some.inj closed
      exact ⟨q, inner, by simp⟩

/-- **Every project of a cycle needs itself.** -/
theorem DependencyCycle.needs_self (h : DependencyCycle items members) :
    ∀ p ∈ members, Relation.TransGen (IsArc items) p p := by
  have harcs : members.IsChain (Relation.TransGen (IsArc items)) :=
    h.depends.imp_of_mem_imp fun d p hd _ hdp => .single ⟨hdp, mem_projects.2 (h.listed d hd)⟩
  have hpairs : members.Pairwise (Relation.TransGen (IsArc items)) := List.isChain_iff_pairwise.1 harcs
  obtain ⟨q, inner, rfl⟩ := h.exists_eq
  rw [List.cons_append, List.pairwise_cons, List.pairwise_append] at hpairs
  obtain ⟨hfirst, -, -, hlast⟩ := hpairs
  have hq : Relation.TransGen (IsArc items) q q := hfirst q List.mem_concat_self
  intro p hp
  rw [List.cons_append, List.mem_cons, List.mem_append, List.mem_singleton] at hp
  rcases hp with rfl | hp | rfl
  · exact hq
  · exact (hlast p hp q List.mem_cons_self).trans (hfirst p (List.mem_append_left _ hp))
  · exact hq

/-! ## The walk back -/

namespace CycleWalk

inductive Stage where
  /-- On the way: the projects walked through, and the one that the walk is at. -/
  | walking (path : List String) (current : String)
  /-- The walk came to a project again. -/
  | closed (cycle : List String)
  /-- The walk came to a project without a predecessor that is left. -/
  | stranded (path : List String)

/-- What a path has from a project on, turned round, and its first project again. -/
def around (path : List String) (back : String) : List String :=
  let cycle := (path.dropWhile (· != back)).reverse
  cycle ++ cycle.take 1

/-- **One turn of the walk**: on to the first predecessor with a count that is not zero. -/
def step (items : List ExpandedItem) (waiting : String → Nat) (path : List String) (current : String) : Stage :=
  if current ∈ path then .closed (around path current)
  else match (predecessors items current).find? (waiting · != 0) with
    | none => .stranded (path ++ [current])
    | some previous => .walking (path ++ [current]) previous

/-- **The walk comes to a stage where it stops**, after finitely many turns. -/
inductive Ends (items : List ExpandedItem) (waiting : String → Nat) : Stage → Stage → Prop where
  | closed (cycle : List String) : Ends items waiting (.closed cycle) (.closed cycle)
  | stranded (path : List String) : Ends items waiting (.stranded path) (.stranded path)
  | walking {path : List String} {current : String} {last : Stage}
      (next : Ends items waiting (step items waiting path current) last) :
      Ends items waiting (.walking path current) last

/-- **A way back through projects with a count that is not zero**: each is a predecessor of the one before it, and only
the one that the walk is at can come twice. -/
structure Trail (items : List ExpandedItem) (waiting : String → Nat) (path : List String) (current : String) :
    Prop where
  chain : (path ++ [current]).IsChain fun p d => IsArc items d p
  nodup : path.Nodup
  left : ∀ p ∈ path ++ [current], p ∈ projects items ∧ waiting p ≠ 0

variable {waiting : String → Nat} {path : List String} {first current : String}

theorem Ends.unique {t last last' : Stage} (h : Ends items waiting t last) (h' : Ends items waiting t last') :
    last = last' := by
  induction h with
  | closed cycle => cases h'; rfl
  | stranded path => cases h'; rfl
  | walking _ ih =>
    cases h' with
    | walking next => exact ih next

namespace Trail

theorem start (hfirst : first ∈ projects items) (hleft : waiting first ≠ 0) : Trail items waiting [] first :=
  ⟨.singleton first, List.nodup_nil, by simp [hfirst, hleft]⟩

/-- **A turn goes on along the trail**, once each project left has a predecessor that is left. -/
theorem exists_step (ht : Trail items waiting path current) (hfresh : current ∉ path)
    (hpred : ∀ p, waiting p ≠ 0 → ∃ d, IsArc items d p ∧ waiting d ≠ 0) :
    ∃ previous, (predecessors items current).find? (waiting · != 0) = some previous ∧
      step items waiting path current = .walking (path ++ [current]) previous ∧
      Trail items waiting (path ++ [current]) previous := by
  obtain ⟨d, hd, hdleft⟩ := hpred current (ht.left current List.mem_concat_self).2
  have hsome : ((predecessors items current).find? (waiting · != 0)).isSome :=
    List.find?_isSome.2 ⟨d, Countdown.mem_predecessors.2 hd, by simpa using hdleft⟩
  obtain ⟨previous, hprevious⟩ := Option.isSome_iff_exists.1 hsome
  have harc : IsArc items previous current := Countdown.mem_predecessors.1 (List.mem_of_find?_eq_some hprevious)
  refine ⟨previous, hprevious, ?_, ?_, ?_, ?_⟩
  · rw [step, if_neg hfresh, hprevious]
  · refine ht.chain.append (.singleton previous) fun p hp d hd => ?_
    rw [List.getLast?_concat] at hp
    cases hp
    cases hd
    exact harc
  · rw [← List.concat_eq_append, List.nodup_concat]
    exact ⟨hfresh, ht.nodup⟩
  · rw [List.forall_mem_append, List.forall_mem_singleton]
    exact ⟨ht.left, harc.2, by simpa using List.find?_some hprevious⟩

/-- **A trail that comes back to one of its projects has a cycle around.** -/
theorem dependencyCycle (ht : Trail items waiting path current) (hback : current ∈ path) :
    DependencyCycle items (around path current) := by
  obtain ⟨before, inner, rfl, hbefore⟩ := List.eq_append_cons_of_mem hback
  have hway : (current :: inner ++ [current]).IsChain fun p d => IsArc items d p := by
    have hchain := ht.chain
    rw [List.append_assoc] at hchain
    exact hchain.right_of_append
  obtain ⟨hinner, -, hclosing⟩ := List.isChain_append.1 hway
  -- turned round, the way starts with the project that the walk came through last
  obtain ⟨p, rest, hturned⟩ := List.exists_cons_of_ne_nil (List.reverse_ne_nil_iff.2 (List.cons_ne_nil current inner))
  rw [around, dropWhile_bne_append hbefore, hturned, List.take_one, List.head?_cons, Option.toList_some]
  have hmem : ∀ q ∈ p :: rest, q ∈ current :: inner := by
    intro q hq
    rwa [← hturned, List.mem_reverse] at hq
  refine dependencyCycle_of_arcs ?_ (fun q hq => ?_) ?_ fun d hd => ?_
  · rw [← hturned, (List.reverse_perm _).nodup_iff]
    exact (List.nodup_append.1 ht.nodup).2.1
  · exact (ht.left q (List.mem_append_left _ (List.mem_append_right _ (hmem q hq)))).1
  · rw [← hturned, List.isChain_reverse]
    exact hinner
  · have hlast : p ∈ (current :: inner).getLast? := by rw [← List.head?_reverse, hturned]; rfl
    rw [← hturned, List.getLast?_reverse] at hd
    cases hd
    exact hclosing p hlast current rfl

end Trail

end CycleWalk

/-! ## The arcs of a project -/

section Arcs

variable {taken : List String} {n : DependencyNode} {p : String}

theorem DependencyNode.distinct_eq_eraseDups : ∀ l : List String, distinct l = l.eraseDups
  | [] => rfl
  | n :: rest => by
    rw [distinct, distinct_eq_eraseDups rest, filter_eraseDups, List.eraseDups_cons]
    rfl

theorem filter_listedArcs (items : List ExpandedItem) (p : String) : (listedArcs items).filter (·.2 == p) =
    (((items.filter (·.project == some p)).flatMap (·.item.dependsOn)).filter ((projects items).contains ·)).map
      (·, p) := by
  unfold listedArcs
  generalize projects items = all
  induction items with
  | nil => rfl
  | cons e items ih =>
    rw [List.flatMap_cons, List.filter_append, ih]
    cases hq : e.project with
    | none => simp [hq]
    | some q =>
      by_cases hqp : q = p
      · subst hqp
        rw [List.filter_cons_of_pos (by simp [hq]), List.flatMap_cons, List.filter_append, List.map_append]
        refine congrArg (· ++ _) (List.filter_eq_self.2 fun x hx => ?_)
        obtain ⟨d, -, rfl⟩ := List.mem_map.1 hx
        exact beq_self_eq_true q
      · rw [List.filter_cons_of_neg (by simpa [hq] using hqp)]
        refine (congrArg (· ++ _) (List.filter_eq_nil_iff.2 fun x hx => ?_)).trans (List.nil_append _)
        obtain ⟨d, -, rfl⟩ := List.mem_map.1 hx
        simpa using hqp

/-- **A node waits for the predecessors of its project**, in the order of the arcs. -/
theorem predecessors_eq_waitsFor (items : List ExpandedItem) (p : String) :
    predecessors items p = (node items p).waitsFor := by
  have hinj : (fun d : String => (d, p)).Injective := fun _ _ h => (Prod.mk.inj h).1
  show ((listedArcs items).eraseDups.filter (·.2 == p)).map Prod.fst =
    (distinct ((items.filter (·.project == some p)).flatMap (·.item.dependsOn))).filter ((projects items).contains ·)
  rw [filter_eraseDups, filter_listedArcs, ← map_eraseDups hinj, List.map_map, distinct_eq_eraseDups, filter_eraseDups]
  exact List.map_id _

theorem DependencyNode.find?_leftAfter_eq_none (hp : p ∈ projects items)
    (h : (leftAfter items taken).find? (·.project == p) = none) : p ∈ taken := by
  by_contra hfresh
  have hmem : p ∈ (leftAfter items taken).map (·.project) := by
    rw [map_project_leftAfter]
    exact List.mem_filter.2 ⟨hp, by simpa using hfresh⟩
  obtain ⟨n, hn, rfl⟩ := List.mem_map.1 hmem
  exact List.find?_eq_none.1 h n hn (beq_self_eq_true _)

theorem DependencyNode.eq_node_of_find? (h : (leftAfter items taken).find? (·.project == p) = some n) :
    n = node items p ∧ n ∈ ofItems items ∧ p ∉ taken := by
  have hproject : n.project = p := by simpa using List.find?_some h
  obtain ⟨hn, hfresh⟩ := List.mem_filter.1 (List.mem_of_find?_eq_some h)
  have hnode := hn
  rw [ofItems_eq_map_node] at hnode
  obtain ⟨q, -, rfl⟩ := List.mem_map.1 hnode
  obtain rfl : q = p := hproject
  have hfresh : (!taken.contains q) = true := hfresh
  exact ⟨rfl, hn, by simpa using hfresh⟩

end Arcs

/-! ## The walk through the nodes left -/

namespace CycleWalk

variable {s : Countdown} {stuck fresh : List DependencyNode} {path : List String} {current : String}

/-- Where the loop has stopped, both walks go on to the same predecessor. -/
theorem find?_predecessors (hs : s.Tracks items) (hstops : s.step items = .ended s.taken) (current : String) :
    (predecessors items current).find? (s.waiting · != 0) =
      (node items current).waitsFor.find? (isAmong · (leftAfter items s.taken)) := by
  rw [predecessors_eq_waitsFor]
  refine List.find?_congr fun d hd => ?_
  have hlisted : d ∈ projects items := (mem_waitsFor_node.1 hd).2
  rw [isAmong_leftAfter hlisted, Bool.eq_iff_iff, bne_iff_ne, hs.waiting_ne_zero_iff hstops hlisted]
  simp

theorem around_reverse (hnd : path.Nodup) (hback : current ∈ path) : around path.reverse current =
    path.takeWhile (· != current) ++ [current] ++ (path.takeWhile (· != current) ++ [current]).take 1 := by
  rw [around, dropWhile_reverse_of_nodup hnd hback, List.reverse_cons, List.reverse_reverse]

/-- **A walk that starts where the loop has stopped closes a cycle**, after finitely many turns: the one that `walkBack`
gives. -/
theorem Trail.ends_walkBack (hs : s.Tracks items) (hstops : s.step items = .ended s.taken)
    (hstuck : stuck = leftAfter items s.taken) (hfresh : fresh = leftAfter items (s.taken ++ path.reverse))
    (ht : Trail items s.waiting path.reverse current) :
    Ends items s.waiting (.walking path.reverse current) (.closed (walkBack stuck fresh path current)) ∧
      DependencyCycle items (walkBack stuck fresh path current) := by
  have hpred : ∀ p, s.waiting p ≠ 0 → ∃ d, IsArc items d p ∧ s.waiting d ≠ 0 := fun p => hs.exists_predecessor hstops
  -- the nodes that the walk did not come through yet get fewer
  fun_induction walkBack stuck fresh path current with
  | case1 fresh path current hnone =>
    subst hfresh
    obtain ⟨hlisted, hleft⟩ := ht.left current List.mem_concat_self
    have hback : current ∈ path.reverse := by
      have hold := find?_leftAfter_eq_none hlisted hnone
      exact (List.mem_append.1 hold).resolve_left ((hs.waiting_ne_zero_iff hstops hlisted).1 hleft)
    rw [← around_reverse (List.nodup_reverse.1 ht.nodup) (List.mem_reverse.1 hback)]
    refine ⟨.walking ?_, ht.dependencyCycle hback⟩
    rw [step, if_pos hback]
    exact .closed _
  | case2 fresh path current n hfind hnone =>
    subst hfresh hstuck
    obtain ⟨rfl, -, hnew⟩ := eq_node_of_find? hfind
    obtain ⟨previous, hprevious, -⟩ := ht.exists_step (fun h => hnew (List.mem_append_right _ h)) hpred
    rw [find?_predecessors hs hstops, hnone] at hprevious
    cases hprevious
  | case3 fresh path current n hfind next hnext _ ih =>
    subst hfresh hstuck
    obtain ⟨rfl, hn, hnew⟩ := eq_node_of_find? hfind
    obtain ⟨previous, hprevious, hstep, ht⟩ := ht.exists_step (fun h => hnew (List.mem_append_right _ h)) hpred
    rw [find?_predecessors hs hstops, hnext] at hprevious
    obtain rfl := Option.some.inj hprevious
    rw [← List.reverse_cons] at hstep ht
    have hrest : (leftAfter items (s.taken ++ path.reverse)).erase (node items current) =
        leftAfter items (s.taken ++ (current :: path).reverse) := by
      rw [erase_leftAfter hn, List.append_assoc, List.reverse_cons]
      rfl
    obtain ⟨hends, hcycle⟩ := ih hrest ht
    refine ⟨.walking ?_, hcycle⟩
    rw [hstep]
    exact hends

end CycleWalk

theorem exists_of_dependencyOrder_error (h : dependencyOrder items = .error members) :
    ∃ n stuck, (emit (ofItems items)).2 = n :: stuck ∧ members = walkBack (n :: stuck) (n :: stuck) [] n.project := by
  unfold dependencyOrder at h
  split at h
  · cases h
  · rename_i taken n stuck hemit
    exact ⟨n, stuck, by rw [hemit], (Except.error.inj h).symm⟩

/-- **A reported cycle is one.** The members that the error names form a cycle of dependencies. Each of them needs
itself, so none is merely behind a cycle, and the message names the first. The walk that looks for the cycle starts at
the first project whose count is not zero when the loop that counts has stopped; it stops too, with the cycle, and never
for want of a predecessor. -/
theorem dependencyOrder_error_genuine (h : dependencyOrder items = .error members) :
    DependencyCycle items members ∧
    (∀ p ∈ members, Relation.TransGen (IsArc items) p p) ∧
    (∃ p rest, members = p :: rest ∧ (ScheduleError.dependencyCycle members).message =
      "Dependency cycle between deploy items involving project '" ++ p ++ "': " ++ " -> ".intercalate members ++ ".") ∧
    ∃ s, Countdown.IsFinal items s ∧ ∃ first, (projects items).find? (s.waiting · != 0) = some first ∧
      ∀ last, CycleWalk.Ends items s.waiting (.walking [] first) last ↔ last = .closed members := by
  obtain ⟨n, stuck, hstuck, rfl⟩ := exists_of_dependencyOrder_error h
  obtain ⟨s, hfinal, hs, -, hleft⟩ := Countdown.exists_isFinal items
  rw [hleft] at hstuck
  have hfirst : (projects items).find? (s.waiting · != 0) = some n.project := by
    have hhead : ((leftAfter items s.taken).map (·.project)).head? = some n.project := by rw [hstuck]; rfl
    rw [map_project_leftAfter, List.head?_filter] at hhead
    rw [← hhead]
    refine List.find?_congr fun p hp => ?_
    rw [Bool.eq_iff_iff, bne_iff_ne, hs.waiting_ne_zero_iff hfinal.stops hp]
    simp
  have htrail : CycleWalk.Trail items s.waiting [].reverse n.project :=
    .start (List.mem_of_find?_eq_some hfirst) (by simpa using List.find?_some hfirst)
  obtain ⟨hends, hcycle⟩ := CycleWalk.Trail.ends_walkBack hs hfinal.stops hstuck.symm
    (by rw [List.reverse_nil, List.append_nil, hstuck]) htrail
  refine ⟨hcycle, hcycle.needs_self, ?_, s, hfinal, n.project, hfirst, fun last => ⟨fun hlast => ?_, ?_⟩⟩
  · obtain ⟨p, inner, hmembers⟩ := hcycle.exists_eq
    refine ⟨p, inner ++ [p], hmembers, ?_⟩
    rw [hmembers]
    rfl
  · exact hlast.unique hends
  · rintro rfl
    exact hends

/-- Two projects that depend on each other, and one before them in the plan that depends on the second. -/
def entangledItems : List ExpandedItem :=
  [⟨0, some "shop", { dependsOn := ["api"] }⟩, ⟨1, some "web", { dependsOn := ["api"] }⟩,
    ⟨2, some "api", { dependsOn := ["db", "web"] }⟩, ⟨3, some "db", {}⟩]

theorem entangledItems_error_genuine : dependencyOrder entangledItems = .error ["web", "api", "web"] ∧
    DependencyCycle entangledItems ["web", "api", "web"] ∧ Relation.TransGen (IsArc entangledItems) "api" "api" ∧
    ∃ s first, Countdown.IsFinal entangledItems s ∧
      (projects entangledItems).find? (s.waiting · != 0) = some first ∧
      CycleWalk.Ends entangledItems s.waiting (.walking [] first) (.closed ["web", "api", "web"]) := by
  have herror : dependencyOrder entangledItems = .error ["web", "api", "web"] := by cbv
  obtain ⟨hcycle, hself, -, s, hfinal, first, hfirst, hends⟩ := dependencyOrder_error_genuine herror
  exact ⟨herror, hcycle, hself "api" (by simp), s, first, hfinal, hfirst, (hends _).2 rfl⟩

end DeployInventory
