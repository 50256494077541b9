import DeployInventory.Proofs.Before
import DeployInventory.Proofs.Lineage.Ancestry
/-!
# Proofs.Lineage.Climb — walks that leave every node they enter

`Climb` has one rule for each way in which a walk through parents goes on. What such a walk leaves is linear: every
node stands once, before all of its ancestors (`Climb.linear`, `Linear.sublist_of_isAncestor`). A walk that nothing
stops comes to its end above sound nodes (`exists_walkParents_eq_ok`).
-/
namespace DeployInventory
namespace Hierarchy

/-- **A walk through parents that leaves every node it enters**: `left` are the nodes left before it, `done` those left
after it, the last first. -/
inductive Climb (h : Hierarchy) : (path parents left done : List String) → Prop where
  | nil (path left : List String) : Climb h path [] left left
  | seen {path rest left done : List String} {p : String} (hl : p ∈ left) (next : Climb h path rest left done) :
      Climb h path (p :: rest) left done
  | enter {path rest left above done ps : List String} {p : String} (hl : p ∉ left) (hp : p ∉ path)
      (known : h.find? p = some ps) (up : Climb h (p :: path) ps left above)
      (next : Climb h path rest (p :: above) done) : Climb h path (p :: rest) left done

theorem climb_of_walkParents {α : Type} {h : Hierarchy} {stop : String → Option α} {child : String}
    {path parents left done : List String} (hw : walkParents h stop child path parents left = .ok (.left done)) :
    Climb h path parents left done := by
  fun_induction walkParents h stop child path parents left generalizing done with
  | case1 child path left =>
    cases hw
    exact .nil path left
  | case2 child path p rest left hl ih => exact .seen hl (ih hw)
  | case8 child path p rest left hl hp ps hn _ _ above hup ihUp ihNext => exact .enter hl hp hn (ihUp hup) (ihNext hw)
  | _ => cases hw

/-- A list in which every node has its parents behind it and does not come again. -/
def Linear (h : Hierarchy) : List String → Prop
  | [] => True
  | n :: above => n ∉ above ∧ (∃ ps, h.find? n = some ps ∧ ∀ p ∈ ps, p ∈ above) ∧ Linear h above

namespace Climb

variable {h : Hierarchy} {path parents left done : List String}

theorem left_subset (hc : Climb h path parents left done) : ∀ n ∈ left, n ∈ done := by
  induction hc with
  | nil => exact fun n hn => hn
  | seen _ _ ih => exact ih
  | enter _ _ _ _ _ ihUp ihNext => exact fun n hn => ihNext n (List.mem_cons_of_mem _ (ihUp n hn))

theorem parents_subset (hc : Climb h path parents left done) : ∀ p ∈ parents, p ∈ done := by
  induction hc with
  | nil => exact fun p hp => absurd hp List.not_mem_nil
  | seen hl next ih =>
    intro p hp
    rcases List.mem_cons.1 hp with rfl | hp
    · exact next.left_subset p hl
    · exact ih p hp
  | enter _ _ _ _ next _ ihNext =>
    intro p hp
    rcases List.mem_cons.1 hp with rfl | hp
    · exact next.left_subset p List.mem_cons_self
    · exact ihNext p hp

theorem avoids_path (hc : Climb h path parents left done) : ∀ n ∈ path, n ∉ left → n ∉ done := by
  induction hc with
  | nil => exact fun n _ hn => hn
  | seen _ _ ih => exact ih
  | enter _ hp _ _ _ ihUp ihNext =>
    intro n hn hl
    refine ihNext n hn fun hm => ?_
    rcases List.mem_cons.1 hm with rfl | hm
    · exact hp hn
    · exact ihUp n (List.mem_cons_of_mem _ hn) hl hm

/-- **What a walk leaves is linear.** -/
theorem linear (hc : Climb h path parents left done) : Linear h left → Linear h done := by
  induction hc with
  | nil => exact id
  | seen _ _ ih => exact ih
  | enter hl _ known up _ ihUp ihNext =>
    intro hlin
    exact ihNext ⟨up.avoids_path _ List.mem_cons_self hl, ⟨_, known, up.parents_subset⟩, ihUp hlin⟩

/-- What a walk leaves can be reached from the parents that it goes through. -/
theorem mem_done (hc : Climb h path parents left done) :
    ∀ n ∈ done, n ∈ left ∨ ∃ p ∈ parents, h.AtOrAbove n p := by
  induction hc with
  | nil => exact fun n hn => .inl hn
  | seen _ _ ih =>
    intro n hn
    rcases ih n hn with hl | ⟨p, hp, hnp⟩
    · exact .inl hl
    · exact .inr ⟨p, List.mem_cons_of_mem _ hp, hnp⟩
  | enter _ _ known _ _ ihUp ihNext =>
    intro n hn
    rcases ihNext n hn with hm | ⟨q, hq, hnq⟩
    · rcases List.mem_cons.1 hm with rfl | hm
      · exact .inr ⟨n, List.mem_cons_self, .refl⟩
      · rcases ihUp n hm with hl | ⟨q, hq, hnq⟩
        · exact .inl hl
        · exact .inr ⟨_, List.mem_cons_self, hnq.of_parent ⟨_, known, hq⟩⟩
    · exact .inr ⟨q, List.mem_cons_of_mem _ hq, hnq⟩

end Climb

namespace Linear

variable {h : Hierarchy}

theorem nodup : ∀ {l : List String}, Linear h l → l.Nodup
  | [], _ => List.nodup_nil
  | _ :: _, ⟨hn, _, hl⟩ => List.nodup_cons.2 ⟨hn, hl.nodup⟩

theorem mem_names : ∀ {l : List String}, Linear h l → ∀ n ∈ l, n ∈ h.names
  | [], _, _, hn => absurd hn List.not_mem_nil
  | _ :: _, ⟨_, ⟨ps, hm, _⟩, hl⟩, n, hn => by
    rcases List.mem_cons.1 hn with rfl | hn
    · exact NameMap.mem_names.2 ⟨ps, hm⟩
    · exact hl.mem_names n hn

theorem sublist_of_isParent : ∀ {l : List String}, Linear h l → ∀ {p n : String}, n ∈ l → h.IsParent p n →
    [n, p].Sublist l
  | [], _, _, _, hn, _ => absurd hn List.not_mem_nil
  | m :: l, ⟨_, ⟨ps, hm, hps⟩, hl⟩, p, n, hn, hp => by
    rcases List.mem_cons.1 hn with rfl | hn
    · obtain ⟨qs, hq, hpq⟩ := hp
      rw [hm, Option.some.injEq] at hq
      subst hq
      exact List.Sublist.cons_cons _ (List.singleton_sublist.2 (hps p hpq))
    · exact (hl.sublist_of_isParent hn hp).cons _

theorem mem_of_atOrAbove {l : List String} (hl : Linear h l) {a n : String} (hn : n ∈ l) (ha : h.AtOrAbove a n) :
    a ∈ l := by
  induction ha using Relation.ReflTransGen.head_induction_on with
  | refl => exact hn
  | head hp _ ih => exact (hl.sublist_of_isParent ih hp).subset (by simp)

end Linear

/-- **All ancestors of a listed node stand behind it.** -/
theorem Linear.sublist_of_isAncestor {h : Hierarchy} {l : List String} (hl : Linear h l) {a n : String} (hn : n ∈ l)
    (ha : h.IsAncestor a n) : [n, a].Sublist l := by
  induction ha using Relation.TransGen.head_induction_on with
  | single hp => exact hl.sublist_of_isParent hn hp
  | head hp _ ih =>
    exact pair_sublist_trans hl.nodup ih (hl.sublist_of_isParent (ih.subset (by simp)) hp)

theorem Linear.not_isAncestor_self {h : Hierarchy} {l : List String} (hl : Linear h l) {n : String} (hn : n ∈ l) :
    ¬ h.IsAncestor n n := by
  intro ha
  have := (hl.sublist_of_isAncestor hn ha).nodup hl.nodup
  simp at this

/-- **A listed node is sound.** -/
theorem Linear.sound {h : Hierarchy} {l : List String} (hl : Linear h l) {n : String} (hn : n ∈ l) : h.Sound n :=
  ⟨fun a ha => hl.mem_names a (hl.mem_of_atOrAbove hn ha),
    fun _ ha => hl.not_isAncestor_self (hl.mem_of_atOrAbove hn ha)⟩

/-- **A walk through sound parents ends without an error**, once no node of the path can be reached from them. -/
theorem exists_walkParents_eq_ok {α : Type} (h : Hierarchy) (stop : String → Option α) (child : String)
    (path parents left : List String) (hs : ∀ p ∈ parents, h.Sound p)
    (hp : ∀ p ∈ parents, ∀ q ∈ path, ¬ h.AtOrAbove q p) :
    ∃ out, walkParents h stop child path parents left = .ok out := by
  fun_induction walkParents h stop child path parents left with
  | case1 child path left => exact ⟨_, rfl⟩
  | case2 child path p rest left _ ih =>
    exact ih (fun q hq => hs q (List.mem_cons_of_mem _ hq)) fun q hq => hp q (List.mem_cons_of_mem _ hq)
  | case3 child path p rest left _ hpath => exact absurd .refl (hp p List.mem_cons_self p hpath)
  | case4 child path p rest left _ _ hn =>
    obtain ⟨ps, hps⟩ := (hs p List.mem_cons_self).find?
    rw [hn] at hps
    cases hps
  | case5 => exact ⟨_, rfl⟩
  | case6 child path p rest left _ _ ps hn _ _ e he ih =>
    have hsp := hs p List.mem_cons_self
    obtain ⟨out, hout⟩ := ih (fun g hg => hsp.parent ⟨ps, hn, hg⟩) fun g hg q hq => by
      rcases List.mem_cons.1 hq with rfl | hq
      · exact hsp.not_atOrAbove_parent ⟨ps, hn, hg⟩
      · exact fun ha => hp p List.mem_cons_self q hq (ha.of_parent ⟨ps, hn, hg⟩)
    rw [he] at hout
    cases hout
  | case7 => exact ⟨_, rfl⟩
  | case8 child path p rest left _ _ ps _ _ _ above _ _ ihNext =>
    exact ihNext (fun q hq => hs q (List.mem_cons_of_mem _ hq)) fun q hq => hp q (List.mem_cons_of_mem _ hq)

end Hierarchy
end DeployInventory
