import DeployInventory.Proofs.Inventory.Problems
import DeployInventory.Proofs.Lineage.Culprits
/-!
# Proofs.Inventory.Reports — which defects validation reports, and how often

Validation has one error of each node. A parent that does not exist is reported as that of the node that declares it
just when all parents before it in the node's list are sound; otherwise the node's error is another one
(`problems_report_first`). No error is reported twice of a kind, but a cycle is another error from each of its nodes,
and is reported from all of them (`problems_report_rotations`).
-/
namespace DeployInventory

/-- Whether two errors tell the same defect: of a cycle it does not matter where its listing begins. -/
def LineageError.SameDefect : LineageError → LineageError → Prop
  | .missingNode m n, .missingNode m' n' => m = m' ∧ n = n'
  | .cyclic cycle, .cyclic cycle' => cycle.dropLast ~r cycle'.dropLast
  | _, _ => False

instance : DecidableRel LineageError.SameDefect
  | .missingNode _ _, .missingNode _ _ => inferInstanceAs (Decidable (_ ∧ _))
  | .cyclic _, .cyclic _ => inferInstanceAs (Decidable (_ ~r _))
  | .missingNode _ _, .cyclic _ => .isFalse id
  | .cyclic _, .missingNode _ _ => .isFalse id

/-- The number of nodes whose own lineage fails with a defect in one of its forms: one for a parent that does not exist,
all nodes of a cycle. -/
def LineageError.places : LineageError → Nat
  | .missingNode _ _ => 1
  | .cyclic cycle => cycle.dropLast.length

theorem LineageError.SameDefect.symm {e f : LineageError} (h : e.SameDefect f) : f.SameDefect e := by
  cases e with
  | missingNode m n =>
    cases f with
    | missingNode m' n' => exact ⟨h.1.symm, h.2.symm⟩
    | cyclic cycle' => exact h
  | cyclic cycle =>
    cases f with
    | missingNode m' n' => exact h
    | cyclic cycle' => exact List.IsRotated.symm h

theorem dropLast_append_take_one {α : Type} : ∀ l : List α, (l ++ l.take 1).dropLast = l
  | [] => rfl
  | a :: l => by rw [List.take_succ_cons, List.take_zero, List.dropLast_concat]

theorem LineageError.sameDefect_closed_iff {r r' : List String} :
    (LineageError.cyclic (r ++ r.take 1)).SameDefect (.cyclic (r' ++ r'.take 1)) ↔ r ~r r' := by
  show (r ++ r.take 1).dropLast ~r (r' ++ r'.take 1).dropLast ↔ _
  rw [dropLast_append_take_one, dropLast_append_take_one]

theorem countP_eq_length_of_nodup {α : Type} {l k : List α} {p : α → Bool} (hl : l.Nodup) (hk : k.Nodup)
    (h : ∀ a, a ∈ k ↔ a ∈ l ∧ p a = true) : l.countP p = k.length := by
  have hperm : (l.filter p).Perm k :=
    (List.perm_ext_iff_of_nodup (hl.filter p) hk).2 fun a => by rw [List.mem_filter, h]
  rw [List.countP_eq_length_filter, hperm.length_eq]

namespace Inventory

open Hierarchy (Ring)

variable {inv : Inventory} {kind : NodeKind} {m n : String} {e : LineageError} {cycle : List String}

/-! ## Which errors are reported -/

theorem mem_problems_missingNode_iff : (kind, .missingNode m (some n)) ∈ inv.problems ↔
    (inv.hierarchy kind).IsCulprit n m ∧ m ∉ inv.names kind := by
  rw [mem_problems_iff]
  constructor
  · rintro ⟨start, -, hd⟩
    exact Hierarchy.isCulprit_of_descending hd
  · intro h
    exact ⟨n, h.1.isParent.mem_names, Hierarchy.descending_eq_missing_iff.2 h⟩

theorem mem_problems_cyclic_iff : (kind, .cyclic cycle) ∈ inv.problems ↔
    ∃ ring, (inv.hierarchy kind).Ring ring ∧ cycle = ring ++ ring.take 1 := by
  rw [mem_problems_iff]
  constructor
  · rintro ⟨start, -, hd⟩
    exact Hierarchy.exists_ring_of_descending hd
  · rintro ⟨ring, hring, rfl⟩
    obtain ⟨k, way, rfl⟩ := List.exists_cons_of_ne_nil hring.ne_nil
    exact ⟨k, hring.head_mem_names, hring.descending_eq⟩

theorem exists_ring (hx : (kind, .cyclic cycle) ∈ inv.problems) :
    ∃ n way, (inv.hierarchy kind).Ring (n :: way) ∧ cycle = n :: way ++ [n] := by
  obtain ⟨ring, hring, rfl⟩ := mem_problems_cyclic_iff.1 hx
  obtain ⟨n, way, rfl⟩ := List.exists_cons_of_ne_nil hring.ne_nil
  exact ⟨n, way, hring, rfl⟩

/-- **A parent that does not exist is reported just when it is the first in its list with anything wrong**: when all
parents before it are sound. Be that as it may, the node that declares it is reported, with what its own lineage fails
with. -/
theorem problems_report_first (inv : Inventory) (kind : NodeKind) {m n : String}
    (hparent : (inv.hierarchy kind).IsParent m n) (hm : m ∉ inv.names kind) :
    ((kind, .missingNode m (some n)) ∈ inv.problems ↔ ∃ before after,
      (inv.hierarchy kind).find? n = some (before ++ m :: after) ∧ ∀ q ∈ before, (inv.hierarchy kind).Sound q) ∧
    ∃ e, inv.lineage kind n = .error e ∧ (kind, e) ∈ inv.problems := by
  have hunsound : ¬ (inv.hierarchy kind).Sound m := Hierarchy.not_sound_of_unknown hm
  constructor
  · rw [mem_problems_missingNode_iff]
    constructor
    · rintro ⟨⟨before, after, hn, hbefore, -⟩, -⟩
      exact ⟨before, after, hn, hbefore⟩
    · rintro ⟨before, after, hn, hbefore⟩
      exact ⟨⟨before, after, hn, hbefore, hunsound⟩, hm⟩
  · cases hl : inv.lineage kind n with
    | error e => exact ⟨e, rfl, mem_problems_iff.2 ⟨n, hparent.mem_names, hl⟩⟩
    | ok order => exact absurd ((Hierarchy.exists_descending_iff.1 ⟨order, hl⟩).parent hparent) hunsound

/-- A project that declares a parent in order and then two that do not exist. -/
def ghostShop : Inventory :=
  .ofRecords [.project { name := "base" }, .project { name := "shop", parents := ["base", "ghost", "phantom"] }]

theorem ghostShop_parents {p : String} :
    (ghostShop.hierarchy .project).IsParent p "shop" ↔ p ∈ ["base", "ghost", "phantom"] :=
  Hierarchy.isParent_iff (by cbv)

theorem ghostShop_reports_first : (ghostShop.hierarchy .project).IsParent "ghost" "shop" ∧
    "ghost" ∉ ghostShop.names .project ∧ (.project, .missingNode "ghost" (some "shop")) ∈ ghostShop.problems ∧
    (ghostShop.hierarchy .project).IsParent "phantom" "shop" ∧ "phantom" ∉ ghostShop.names .project ∧
    (.project, .missingNode "phantom" (some "shop")) ∉ ghostShop.problems ∧
    ∃ e, ghostShop.lineage .project "shop" = .error e ∧ (.project, e) ∈ ghostShop.problems := by
  have hghost : (ghostShop.hierarchy .project).IsParent "ghost" "shop" := ghostShop_parents.2 (by simp)
  have hphantom : (ghostShop.hierarchy .project).IsParent "phantom" "shop" := ghostShop_parents.2 (by simp)
  have hno : "ghost" ∉ ghostShop.names .project := by decide +kernel
  have hno' : "phantom" ∉ ghostShop.names .project := by decide +kernel
  have hbase : (ghostShop.hierarchy .project).Sound "base" := Hierarchy.exists_descending_iff.1 ⟨["base"], by cbv⟩
  have hfound : (ghostShop.hierarchy .project).find? "shop" = some ["base", "ghost", "phantom"] := by cbv
  obtain ⟨hfirst, herror⟩ := problems_report_first ghostShop .project hghost hno
  obtain ⟨hsecond, -⟩ := problems_report_first ghostShop .project hphantom hno'
  refine ⟨hghost, hno, hfirst.2 ⟨["base"], ["phantom"], hfound, ?_⟩, hphantom, hno', fun hreported => ?_, herror⟩
  · rw [List.forall_mem_singleton]
    exact hbase
  · obtain ⟨before, after, hn, hbefore⟩ := hsecond.1 hreported
    have hcut : ["base", "ghost", "phantom"] = before ++ "phantom" :: after := Option.some.inj (hfound.symm.trans hn)
    have hmem : "ghost" ∈ before := by
      rcases before with _ | ⟨base, _ | ⟨ghost, rest⟩⟩
      · simp at hcut
      · simp at hcut
      · simp only [List.cons_append, List.cons.injEq] at hcut
        simp [hcut.2.1]
    exact Hierarchy.not_sound_of_unknown hno (hbefore "ghost" hmem)

/-- The second of two parents that do not exist is not reported. -/
theorem ghostShop_phantom_unreported : ¬ ∀ (inv : Inventory) (kind : NodeKind) (n m : String), n ∈ inv.names kind →
    (inv.hierarchy kind).IsParent m n → m ∉ inv.names kind → (kind, .missingNode m (some n)) ∈ inv.problems := by
  intro hall
  have hproblems : ghostShop.problems = [(.project, .missingNode "ghost" (some "shop"))] := by cbv
  have hreported := hall ghostShop .project "shop" "phantom" (by decide +kernel) (ghostShop_parents.2 (by simp))
    (by decide +kernel)
  simp [hproblems] at hreported

/-! ## How often they are reported -/

theorem nodup_addProblem {problems : List LineageError} (h : problems.Nodup) : (addProblem problems e).Nodup := by
  unfold addProblem
  split
  · exact h
  · rename_i he
    exact List.nodup_append.2 ⟨h, List.nodup_singleton e, fun a ha b hb hab =>
      he (by rwa [hab, List.mem_singleton.1 hb] at ha)⟩

theorem nodup_foldl_addProblem : ∀ {found problems : List LineageError}, problems.Nodup →
    (found.foldl addProblem problems).Nodup
  | [], _, h => h
  | _ :: _, _, h => by
    rw [List.foldl_cons]
    exact nodup_foldl_addProblem (nodup_addProblem h)

/-- **No error is reported twice of a kind.** -/
theorem nodup_problems (inv : Inventory) : inv.problems.Nodup := by
  unfold problems
  rw [List.nodup_flatMap]
  constructor
  · intro kind _
    exact (nodup_foldl_addProblem List.nodup_nil).map fun e f h => (Prod.mk.inj h).2
  · have hkinds : NodeKind.all.Nodup := by decide
    refine hkinds.imp fun {k k'} hne x hx hx' => ?_
    obtain ⟨_, -, rfl⟩ := List.mem_map.1 hx
    obtain ⟨_, -, h⟩ := List.mem_map.1 hx'
    exact hne (Prod.mk.inj h).1.symm

/-- The reports of a cycle: one for each place at which its listing can begin. -/
theorem mem_problems_sameDefect_iff {ring : List String} (hring : (inv.hierarchy kind).Ring ring)
    (x : NodeKind × LineageError) :
    x ∈ ring.cyclicPermutations.map (fun r => (kind, LineageError.cyclic (r ++ r.take 1))) ↔
      x ∈ inv.problems ∧ decide (x.1 = kind ∧ (LineageError.cyclic (ring ++ ring.take 1)).SameDefect x.2) = true := by
  rw [List.mem_map, decide_eq_true_eq]
  constructor
  · rintro ⟨r, hr, rfl⟩
    rw [List.mem_cyclicPermutations_iff] at hr
    have hturned : (inv.hierarchy kind).Ring r := hring.rotate hr.symm
    exact ⟨mem_problems_cyclic_iff.2 ⟨r, hturned, rfl⟩, rfl, LineageError.sameDefect_closed_iff.2 hr.symm⟩
  · obtain ⟨k, f⟩ := x
    rintro ⟨hx, rfl, hsame⟩
    cases f with
    | missingNode m n => exact absurd hsame id
    | cyclic cycle =>
      obtain ⟨r, hr, rfl⟩ := mem_problems_cyclic_iff.1 hx
      have hturned : ring ~r r := LineageError.sameDefect_closed_iff.1 hsame
      exact ⟨r, List.mem_cyclicPermutations_iff.2 hturned.symm, rfl⟩

theorem countP_problems (hx : (kind, e) ∈ inv.problems) :
    inv.problems.countP (fun x => decide (x.1 = kind ∧ e.SameDefect x.2)) = e.places := by
  cases e with
  | missingNode m n =>
    refine (countP_eq_length_of_nodup (nodup_problems inv) (List.nodup_singleton (kind, .missingNode m n)) ?_).trans rfl
    rintro ⟨k, f⟩
    rw [List.mem_singleton, decide_eq_true_eq]
    constructor
    · rintro ⟨⟩
      exact ⟨hx, rfl, rfl, rfl⟩
    · rintro ⟨-, rfl, hsame⟩
      cases f with
      | missingNode m' n' => rw [hsame.1, hsame.2]
      | cyclic cycle => exact absurd hsame id
  | cyclic cycle =>
    obtain ⟨ring, hring, rfl⟩ := mem_problems_cyclic_iff.1 hx
    have hnd : (ring.cyclicPermutations.map fun r => (kind, LineageError.cyclic (r ++ r.take 1))).Nodup := by
      refine hring.nodup.cyclicPermutations.map fun r r' h => ?_
      have hlists : r ++ r.take 1 = r' ++ r'.take 1 := LineageError.cyclic.inj (Prod.mk.inj h).2
      rw [← dropLast_append_take_one r, hlists, dropLast_append_take_one]
    rw [countP_eq_length_of_nodup (nodup_problems inv) hnd (mem_problems_sameDefect_iff hring), List.length_map,
      List.length_cyclicPermutations_of_ne_nil ring hring.ne_nil, LineageError.places,
      dropLast_append_take_one]

/-- Two reports of one defect are of a cycle, listed from two of its nodes. -/
theorem pairwise_problems (inv : Inventory) : inv.problems.Pairwise fun x y => x.1 = y.1 → x.2.SameDefect y.2 →
    ∃ c d, x.2 = .cyclic c ∧ y.2 = .cyclic d ∧ c.head? ≠ d.head? := by
  refine (nodup_problems inv).imp_of_mem fun {x y} hx hy hne hkind hsame => ?_
  obtain ⟨kind, e⟩ := x
  obtain ⟨k, f⟩ := y
  obtain rfl : kind = k := hkind
  cases e with
  | missingNode m n =>
    cases f with
    | missingNode m' n' => exact absurd (by rw [hsame.1, hsame.2]) hne
    | cyclic d => exact absurd hsame id
  | cyclic c =>
    cases f with
    | missingNode m' n' => exact absurd hsame id
    | cyclic d =>
      refine ⟨c, d, rfl, rfl, fun hhead => hne ?_⟩
      obtain ⟨n, way, hring, rfl⟩ := exists_ring hx
      obtain ⟨n', way', hring', rfl⟩ := exists_ring hy
      obtain rfl : n = n' := Option.some.inj hhead
      rw [hring.unique hring']

/-- **A cycle of more than one node is reported from its second node as well.** -/
theorem exists_report_of_ring {p : String} {way : List String} (hring : (inv.hierarchy kind).Ring (n :: p :: way)) :
    ∃ cycle, (kind, .cyclic cycle) ∈ inv.problems ∧ cycle ≠ n :: p :: way ++ [n] ∧
      (LineageError.cyclic (n :: p :: way ++ [n])).SameDefect (.cyclic cycle) := by
  have hturned : n :: p :: way ~r p :: way ++ [n] := (List.isRotated_concat n (p :: way)).symm
  have hne : n ≠ p := fun h => (List.nodup_cons.1 hring.nodup).1 (h ▸ List.mem_cons_self)
  refine ⟨_, mem_problems_cyclic_iff.2 ⟨_, hring.rotate hturned, rfl⟩, fun h => ?_,
    LineageError.sameDefect_closed_iff.2 hturned⟩
  exact hne (List.cons.inj h).1.symm

/-- **Each defect is reported once just when all cycles reported are nodes that are their own parents.** -/
theorem pairwise_not_sameDefect_iff (inv : Inventory) :
    (inv.problems.Pairwise fun x y => x.1 = y.1 → ¬ x.2.SameDefect y.2) ↔
      ∀ kind cycle, (kind, .cyclic cycle) ∈ inv.problems → cycle.dropLast.length = 1 := by
  constructor
  · intro honce kind cycle hx
    have hsymm : Std.Symm fun x y : NodeKind × LineageError => x.1 = y.1 → ¬ x.2.SameDefect y.2 :=
      ⟨fun x y h hkind hs => h hkind.symm hs.symm⟩
    obtain ⟨n, way, hring, rfl⟩ := exists_ring hx
    cases way with
    | nil => rfl
    | cons p way =>
      obtain ⟨cycle, hy, hne, hsame⟩ := exists_report_of_ring hring
      have hdistinct : (kind, LineageError.cyclic (n :: p :: way ++ [n])) ≠ (kind, .cyclic cycle) := fun h =>
        hne (LineageError.cyclic.inj (Prod.mk.inj h).2).symm
      exact absurd hsame (honce.forall hx hy hdistinct rfl)
  · intro hloops
    refine (pairwise_problems inv).imp_of_mem fun {x y} hx hy hxy hkind hsame => ?_
    obtain ⟨kind, e⟩ := x
    obtain ⟨k, f⟩ := y
    obtain rfl : kind = k := hkind
    obtain ⟨c, d, rfl, rfl, hheads⟩ := hxy rfl hsame
    have hc := hloops kind c hx
    have hd := hloops kind d hy
    obtain ⟨n, way, -, rfl⟩ := exists_ring hx
    obtain ⟨n', way', -, rfl⟩ := exists_ring hy
    rw [List.dropLast_concat] at hc hd
    obtain rfl : way = [] := by simpa using hc
    obtain rfl : way' = [] := by simpa using hd
    have hrotated : [n] ~r [n'] := hsame
    exact hheads (by simpa using hrotated)

/-- **A defect is reported from every node at which it can be met.** A parent that does not exist is reported once of
the node that declares it, a cycle once from each of its nodes: two reports of one defect list a cycle from two of its
nodes. So each defect is reported once just when all cycles reported are nodes that are their own parents. -/
theorem problems_report_rotations (inv : Inventory) :
    (∀ kind e, (kind, e) ∈ inv.problems →
      inv.problems.countP (fun x => decide (x.1 = kind ∧ e.SameDefect x.2)) = e.places) ∧
    (inv.problems.Pairwise fun x y => x.1 = y.1 → x.2.SameDefect y.2 →
      ∃ c d, x.2 = .cyclic c ∧ y.2 = .cyclic d ∧ c.head? ≠ d.head?) ∧
    ((inv.problems.Pairwise fun x y => x.1 = y.1 → ¬ x.2.SameDefect y.2) ↔
      ∀ kind cycle, (kind, .cyclic cycle) ∈ inv.problems → cycle.dropLast.length = 1) :=
  ⟨fun _ _ => countP_problems, pairwise_problems inv, pairwise_not_sameDefect_iff inv⟩

/-- Three environments in a circle, a project that is its own parent and one with a parent that does not exist. -/
def circularShop : Inventory :=
  .ofRecords [.environment { name := "live", parents := ["test"] },
    .environment { name := "test", parents := ["stage"] }, .environment { name := "stage", parents := ["live"] },
    .project { name := "loop", parents := ["loop"] }, .project { name := "shop", parents := ["ghost"] }]

theorem circularShop_problems : circularShop.problems =
    [(.environment, .cyclic ["live", "test", "stage", "live"]),
      (.environment, .cyclic ["stage", "live", "test", "stage"]),
      (.environment, .cyclic ["test", "stage", "live", "test"]), (.project, .cyclic ["loop", "loop"]),
      (.project, .missingNode "ghost" (some "shop"))] := by cbv

theorem circularShop_report_rotations :
    (.environment, .cyclic ["live", "test", "stage", "live"]) ∈ circularShop.problems ∧
    circularShop.problems.countP (fun x => decide (x.1 = .environment ∧
      (LineageError.cyclic ["live", "test", "stage", "live"]).SameDefect x.2)) = 3 ∧
    circularShop.problems.countP (fun x => decide (x.1 = .project ∧
      (LineageError.missingNode "ghost" (some "shop")).SameDefect x.2)) = 1 ∧
    ¬ circularShop.problems.Pairwise fun x y => x.1 = y.1 → ¬ x.2.SameDefect y.2 := by
  have hring : (.environment, .cyclic ["live", "test", "stage", "live"]) ∈ circularShop.problems := by
    simp [circularShop_problems]
  have hghost : (.project, .missingNode "ghost" (some "shop")) ∈ circularShop.problems := by
    simp [circularShop_problems]
  obtain ⟨hcount, -, honce⟩ := problems_report_rotations circularShop
  refine ⟨hring, hcount _ _ hring, hcount _ _ hghost, fun hpairwise => ?_⟩
  cases honce.1 hpairwise .environment _ hring

/-- A cycle of two environments is reported from both. -/
theorem brokenShop_reports_twice :
    ¬ ∀ inv : Inventory, inv.problems.Pairwise fun x y => x.1 = y.1 → ¬ x.2.SameDefect y.2 := by
  intro hall
  have hproblems : brokenShop.problems = [(.environment, .cyclic ["live", "test", "live"]),
      (.environment, .cyclic ["test", "live", "test"]), (.project, .missingNode "ghost" (some "shop"))] := by cbv
  have honce := hall brokenShop
  rw [hproblems] at honce
  have hrotated : ["live", "test"] ~r ["test", "live"] := ⟨1, rfl⟩
  exact (List.pairwise_cons.1 honce).1 _ List.mem_cons_self rfl hrotated

end Inventory

end DeployInventory
