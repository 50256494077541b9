import DeployInventory.Proofs.Resolution.Failures
/-!
# Proofs.Resolution.SuperPlay — the definition that a play extends

The candidates for the super play of a play are the ancestors that define it. A candidate that another one inherits from
is shadowed. Whoever inherits last in the lineage is not, so something is left as soon as there are candidates
(`IsCandidate.exists_unshadowed`), and a candidate that is left alone inherits from all others (`superPlay_exact`).
-/
namespace DeployInventory

/-- **Every member of a list in which no node stands behind its heirs is at or above one that has no heir there.** -/
theorem Hierarchy.exists_heirless {h : Hierarchy} {l : List String} (horder : l.Pairwise fun a b => ¬ h.IsAncestor b a)
    (hself : ∀ a ∈ l, ¬ h.IsAncestor a a) {d : String} (hd : d ∈ l) :
    ∃ e ∈ l, h.AtOrAbove d e ∧ ∀ x ∈ l, ¬ h.IsAncestor e x := by
  induction l generalizing d with
  | nil => cases hd
  | cons a l ih =>
    obtain ⟨ha, horder⟩ := List.pairwise_cons.1 horder
    obtain ⟨haa, hself⟩ := List.forall_mem_cons.1 hself
    have hrest : ∀ {b}, b ∈ l → ∃ e ∈ a :: l, h.AtOrAbove b e ∧ ∀ x ∈ a :: l, ¬ h.IsAncestor e x := by
      intro b hb
      obtain ⟨e, he, hbe, hheirless⟩ := ih horder hself hb
      exact ⟨e, List.mem_cons_of_mem _ he, hbe, List.forall_mem_cons.2 ⟨ha e he, hheirless⟩⟩
    rcases List.mem_cons.1 hd with rfl | hd
    · by_cases hheir : ∃ b ∈ l, h.IsAncestor d b
      · obtain ⟨b, hb, hdb⟩ := hheir
        obtain ⟨e, he, hbe, hheirless⟩ := hrest hb
        exact ⟨e, he, hdb.to_reflTransGen.trans hbe, hheirless⟩
      · exact ⟨d, List.mem_cons_self, .refl, List.forall_mem_cons.2 ⟨haa, by simpa using hheir⟩⟩
    · exact hrest hd

namespace Inventory

variable {inv : Inventory} {playbook play c d : String} {all chain l : List String}

/-- **A candidate for the super play**: a strict ancestor that defines the play. -/
structure IsCandidate (inv : Inventory) (playbook play c : String) : Prop where
  ancestor : (inv.hierarchy .playbook).IsAncestor c playbook
  defines : inv.definesPlay play c = true

/-- Another candidate inherits from the playbook. -/
def Shadowed (inv : Inventory) (playbook play c : String) : Prop :=
  ∃ d, inv.IsCandidate playbook play d ∧ d ≠ c ∧ (inv.hierarchy .playbook).IsAncestor c d

/-- **Candidates none of which is to be preferred**: those that are not shadowed, in the order of the lineage. -/
structure Rivals (inv : Inventory) (playbook play : String) (chain several : List String) : Prop where
  sublist : several.Sublist chain
  nodup : several.Nodup
  mem_iff : ∀ c, c ∈ several ↔ inv.IsCandidate playbook play c ∧ ¬ inv.Shadowed playbook play c
  two_le : 2 ≤ several.length
  unrelated : ∀ c ∈ several, ∀ d ∈ several, ¬ (inv.hierarchy .playbook).IsAncestor c d

/-! ## The comparisons -/

/-- Another playbook of a list inherits from the playbook. -/
def HasHeirAmong (inv : Inventory) (l : List String) (c : String) : Prop :=
  ∃ d ∈ l, d ≠ c ∧ (inv.hierarchy .playbook).IsAncestor c d

theorem hasHeirAmong_cons : inv.HasHeirAmong (d :: l) c ↔
    (d ≠ c ∧ (inv.hierarchy .playbook).IsAncestor c d) ∨ inv.HasHeirAmong l c := by
  simp [HasHeirAmong]

open Classical in
theorem isShadowed_eq (hs : ∀ d ∈ l, (inv.hierarchy .playbook).Sound d) :
    inv.isShadowed c l = .ok (decide (inv.HasHeirAmong l c)) := by
  induction l with
  | nil => simp [isShadowed, HasHeirAmong]
  | cons d l ih =>
    obtain ⟨hd, hl⟩ := List.forall_mem_cons.1 hs
    have hasked : (inv.hierarchy .playbook).isAncestor c d =
        .ok (decide ((inv.hierarchy .playbook).IsAncestor c d)) :=
      Hierarchy.isAncestor_eq_ok_iff.2 ⟨hd, decide_eq_true_iff⟩
    rw [isShadowed, hasked, ih hl]
    simp only [hasHeirAmong_cons]
    by_cases hdc : d = c
    · simp [hdc]
    · by_cases hcd : (inv.hierarchy .playbook).IsAncestor c d
      · simp [hdc, hcd, bind, Except.bind, pure, Except.pure]
      · simp [hdc, hcd, bind, Except.bind]

open Classical in
theorem unshadowed_eq (hs : ∀ d ∈ all, (inv.hierarchy .playbook).Sound d) (l : List String) :
    inv.unshadowed all l = .ok (l.filter fun c => ¬ inv.HasHeirAmong all c) := by
  induction l with
  | nil => rfl
  | cons c l ih =>
    rw [unshadowed, isShadowed_eq hs, ih, List.filter_cons]
    by_cases hc : inv.HasHeirAmong all c
    · simp [hc, bind, Except.bind, pure, Except.pure]
    · simp [hc, bind, Except.bind, pure, Except.pure]

/-! ## What is left of the candidates -/

/-- The candidates for a super play along a lineage, the most general first. -/
def candidates (inv : Inventory) (play : String) (chain : List String) : List String :=
  chain.dropLast.filter (inv.definesPlay play)

theorem sublist_candidates : (inv.candidates play chain).Sublist chain :=
  List.filter_sublist.trans (List.dropLast_sublist chain)

section Lineage

variable (hchain : inv.lineage .playbook playbook = .ok chain)
include hchain

theorem sound_of_lineage : (inv.hierarchy .playbook).Sound playbook :=
  Hierarchy.exists_descending_iff.1 ⟨chain, hchain⟩

theorem mem_candidates : c ∈ inv.candidates play chain ↔ inv.IsCandidate playbook play c := by
  obtain ⟨nodes, hnodes, rfl⟩ := Hierarchy.descending_eq_ok_iff.1 hchain
  rw [candidates, List.reverse_cons, List.dropLast_concat, List.mem_filter, List.mem_reverse,
    Hierarchy.mem_of_ancestors hnodes]
  exact ⟨fun h => ⟨h.1, h.2⟩, fun h => ⟨h.ancestor, h.defines⟩⟩

theorem IsCandidate.sound (hc : inv.IsCandidate playbook play c) : (inv.hierarchy .playbook).Sound c :=
  (sound_of_lineage hchain).of_atOrAbove hc.ancestor.to_reflTransGen

theorem hasHeirAmong_candidates : inv.HasHeirAmong (inv.candidates play chain) c ↔ inv.Shadowed playbook play c := by
  simp only [HasHeirAmong, Shadowed, mem_candidates hchain]

/-- **Every candidate is, or is inherited by, one that is not shadowed.** -/
theorem IsCandidate.exists_unshadowed (hd : inv.IsCandidate playbook play d) :
    ∃ e, inv.IsCandidate playbook play e ∧ ¬ inv.Shadowed playbook play e ∧
      (inv.hierarchy .playbook).AtOrAbove d e := by
  have horder : (inv.candidates play chain).Pairwise fun a b => ¬ (inv.hierarchy .playbook).IsAncestor b a :=
    (Hierarchy.pairwise_of_descending hchain).sublist sublist_candidates
  have hself : ∀ a ∈ inv.candidates play chain, ¬ (inv.hierarchy .playbook).IsAncestor a a :=
    fun a ha => (((mem_candidates hchain).1 ha).sound hchain).acyclic a .refl
  obtain ⟨e, he, hde, hheirless⟩ := Hierarchy.exists_heirless horder hself ((mem_candidates hchain).2 hd)
  refine ⟨e, (mem_candidates hchain).1 he, ?_, hde⟩
  rintro ⟨x, hx, -, hex⟩
  exact hheirless x ((mem_candidates hchain).2 hx) hex

/-- **What is left of the candidates decides**: nothing, one playbook, or several that are rivals. -/
theorem superPlay_cases (play : String) : ∃ left : List String, left.Sublist chain ∧
    (∀ c, c ∈ left ↔ inv.IsCandidate playbook play c ∧ ¬ inv.Shadowed playbook play c) ∧
    (left = [] ∧ inv.superPlay? playbook play = .ok none ∨
      (∃ c, left = [c] ∧ inv.superPlay? playbook play = .ok (some c)) ∨
      (2 ≤ left.length ∧ inv.superPlay? playbook play = .error (.ambiguousSuperPlay playbook play left))) := by
  classical
  have hknown : playbook ∈ inv.names .playbook := (sound_of_lineage hchain).known _ .refl
  have hsound : ∀ c ∈ inv.candidates play chain, (inv.hierarchy .playbook).Sound c :=
    fun c hc => ((mem_candidates hchain).1 hc).sound hchain
  have hleft := unshadowed_eq hsound (inv.candidates play chain)
  refine ⟨(inv.candidates play chain).filter fun c => ¬ inv.HasHeirAmong (inv.candidates play chain) c, ?_, ?_, ?_⟩
  · exact List.filter_sublist.trans sublist_candidates
  · intro c
    rw [List.mem_filter, mem_candidates hchain, decide_eq_true_iff, hasHeirAmong_candidates hchain]
  · generalize (inv.candidates play chain).filter _ = left at hleft
    unfold candidates at hleft
    unfold superPlay?
    rw [require_of_mem_names hknown, Hierarchy.descendingParents_of_descending hchain]
    simp only [ResolveError.ofLineage, bind, Except.bind, hleft]
    rcases left with _ | ⟨c, _ | ⟨d, left⟩⟩
    · exact .inl ⟨rfl, rfl⟩
    · exact .inr (.inl ⟨c, rfl, rfl⟩)
    · exact .inr (.inr ⟨by simp, rfl⟩)

theorem superPlay_eq_none_iff : inv.superPlay? playbook play = .ok none ↔ ∀ c, ¬ inv.IsCandidate playbook play c := by
  obtain ⟨left, -, hmem, hcases⟩ := superPlay_cases hchain play
  have hleft : (∀ c, ¬ inv.IsCandidate playbook play c) ↔ left = [] := by
    rw [List.eq_nil_iff_forall_not_mem]
    constructor
    · exact fun h c hc => h c ((hmem c).1 hc).1
    · intro h c hc
      obtain ⟨e, he, hunshadowed, -⟩ := hc.exists_unshadowed hchain
      exact h e ((hmem e).2 ⟨he, hunshadowed⟩)
  rw [hleft]
  rcases hcases with ⟨hnil, hresult⟩ | ⟨c, rfl, hresult⟩ | ⟨hlength, hresult⟩
  · exact iff_of_true hresult hnil
  · exact iff_of_false (by simp [hresult]) (by simp)
  · exact iff_of_false (by simp [hresult]) (by rintro rfl; simp at hlength)

/-- **One candidate is left alone just when it inherits from all others.** -/
theorem left_eq_singleton_iff {left : List String} (hnd : left.Nodup)
    (hmem : ∀ c, c ∈ left ↔ inv.IsCandidate playbook play c ∧ ¬ inv.Shadowed playbook play c) :
    left = [c] ↔ inv.IsCandidate playbook play c ∧
      ∀ d, inv.IsCandidate playbook play d → d ≠ c → (inv.hierarchy .playbook).IsAncestor d c := by
  constructor
  · rintro rfl
    refine ⟨((hmem c).1 List.mem_cons_self).1, fun d hd hdc => ?_⟩
    obtain ⟨e, he, hunshadowed, hde⟩ := hd.exists_unshadowed hchain
    obtain rfl : e = c := List.mem_singleton.1 ((hmem e).2 ⟨he, hunshadowed⟩)
    exact (Hierarchy.atOrAbove_iff.1 hde).resolve_left hdc
  · rintro ⟨hc, hall⟩
    have honly : ∀ d ∈ left, d = c := by
      intro d hd
      obtain ⟨hcandidate, hunshadowed⟩ := (hmem d).1 hd
      by_contra hdc
      exact hunshadowed ⟨c, hc, Ne.symm hdc, hall d hcandidate hdc⟩
    obtain ⟨e, he, hunshadowed, -⟩ := hc.exists_unshadowed hchain
    have hleft : e ∈ left := (hmem e).2 ⟨he, hunshadowed⟩
    obtain rfl : e = c := honly e hleft
    refine List.perm_singleton.1 ((List.perm_ext_iff_of_nodup hnd (List.nodup_singleton e)).2 fun d => ?_)
    rw [List.mem_singleton]
    exact ⟨honly d, fun hd => hd ▸ hleft⟩

theorem superPlay_eq_some_iff : inv.superPlay? playbook play = .ok (some c) ↔
    inv.IsCandidate playbook play c ∧
      ∀ d, inv.IsCandidate playbook play d → d ≠ c → (inv.hierarchy .playbook).IsAncestor d c := by
  obtain ⟨left, hsub, hmem, hcases⟩ := superPlay_cases hchain play
  rw [← left_eq_singleton_iff hchain ((Hierarchy.nodup_of_descending hchain).sublist hsub) hmem]
  rcases hcases with ⟨rfl, hresult⟩ | ⟨d, rfl, hresult⟩ | ⟨hlength, hresult⟩
  · exact iff_of_false (by simp [hresult]) (by simp)
  · simp [hresult]
  · exact iff_of_false (by simp [hresult]) (by rintro rfl; simp at hlength)

/-- **The super play.** Of a playbook with a lineage: there is none just when no ancestor defines the play; it is a
candidate just when that inherits from all other candidates; else the candidates that no other one inherits from are
rivals, and the error lists these. No comparison of two candidates fails. -/
theorem superPlay_exact (play : String) :
    (inv.superPlay? playbook play = .ok none ↔ ∀ c, ¬ inv.IsCandidate playbook play c) ∧
    (∀ c, inv.superPlay? playbook play = .ok (some c) ↔
      inv.IsCandidate playbook play c ∧
        ∀ d, inv.IsCandidate playbook play d → d ≠ c → (inv.hierarchy .playbook).IsAncestor d c) ∧
    ((∃ c, inv.IsCandidate playbook play c) →
      (∀ c, inv.IsCandidate playbook play c →
        ∃ d, inv.IsCandidate playbook play d ∧ d ≠ c ∧ ¬ (inv.hierarchy .playbook).IsAncestor d c) →
      ∃ several, inv.superPlay? playbook play = .error (.ambiguousSuperPlay playbook play several) ∧
        inv.Rivals playbook play chain several) ∧
    ∀ c d, inv.IsCandidate playbook play c → inv.IsCandidate playbook play d →
      ∃ b, (inv.hierarchy .playbook).isAncestor c d = .ok b := by
  refine ⟨superPlay_eq_none_iff hchain, fun c => superPlay_eq_some_iff hchain, fun hsome hnone => ?_,
    fun c d _ hd => (hd.sound hchain).succeeds_isAncestor c⟩
  obtain ⟨left, hsub, hmem, hcases⟩ := superPlay_cases hchain play
  rcases hcases with ⟨-, hresult⟩ | ⟨c, -, hresult⟩ | ⟨hlength, hresult⟩
  · obtain ⟨c, hc⟩ := hsome
    exact absurd hc ((superPlay_eq_none_iff hchain).1 hresult c)
  · obtain ⟨hc, hall⟩ := (superPlay_eq_some_iff hchain).1 hresult
    obtain ⟨d, hd, hdc, hunrelated⟩ := hnone c hc
    exact absurd (hall d hd hdc) hunrelated
  · refine ⟨left, hresult, hsub, (Hierarchy.nodup_of_descending hchain).sublist hsub, hmem, hlength, ?_⟩
    intro c hc d hd hcd
    obtain ⟨hcandidate, hunshadowed⟩ := (hmem c).1 hc
    refine hunshadowed ⟨d, ((hmem d).1 hd).1, ?_, hcd⟩
    rintro rfl
    exact (hcandidate.sound hchain).acyclic d .refl hcd

end Lineage

/-- Two playbooks that inherit from one and, for their part, share an heir. Each of the two defines `jobs`; `web` one of
them redefines, with a port for a single environment. -/
def siteRecords : List Record :=
  [.environment { name := "live" }, .environment { name := "test" }, .playbook { name := "base" },
    .playbook { name := "left", parents := ["base"] }, .playbook { name := "right", parents := ["base"] },
    .playbook { name := "site", parents := ["left", "right"] }, .play { playbook := "base", name := "web" },
    .play { playbook := "left", name := "web" }, .play { playbook := "left", name := "jobs" },
    .play { playbook := "right", name := "jobs" },
    .assignment
      { id := .root 1, entry := ⟨"port", none, .reference "live_port"⟩, environment := some "live",
        playbook := some "left", play := some "web" }]

theorem site_superPlays : ∃ chain, (ofRecords siteRecords).lineage .playbook "site" = .ok chain ∧
    (∀ c, ¬ (ofRecords siteRecords).IsCandidate "site" "cron" c) ∧
    (ofRecords siteRecords).superPlay? "site" "web" = .ok (some "left") ∧
    (ofRecords siteRecords).IsCandidate "site" "web" "left" ∧
    (ofRecords siteRecords).Rivals "site" "jobs" chain ["left", "right"] := by
  have hchain : (ofRecords siteRecords).lineage .playbook "site" = .ok ["base", "left", "right", "site"] := by cbv
  have hcron : (ofRecords siteRecords).superPlay? "site" "cron" = .ok none := by cbv
  have hweb : (ofRecords siteRecords).superPlay? "site" "web" = .ok (some "left") := by cbv
  have hjobs : (ofRecords siteRecords).superPlay? "site" "jobs" =
      .error (.ambiguousSuperPlay "site" "jobs" ["left", "right"]) := by cbv
  refine ⟨_, hchain, (superPlay_exact hchain "cron").1.1 hcron, hweb,
    (((superPlay_exact hchain "web").2.1 "left").1 hweb).1, ?_⟩
  obtain ⟨hnone, hsome, hseveral, -⟩ := superPlay_exact hchain "jobs"
  rw [hjobs] at hnone hsome hseveral
  obtain ⟨several, hlist, hrivals⟩ := hseveral
    (by simpa using hnone) (by simpa using hsome)
  cases hlist
  exact hrivals

end Inventory
end DeployInventory
