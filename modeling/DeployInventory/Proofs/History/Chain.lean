import DeployInventory.History.Basic
import DeployInventory.Proofs.Checked
/-!
# Proofs.History.Chain — what a walk along the parents meets

The commits from an id on, through the parents, are a chain when the walk comes to a first commit. A start has one
chain at most (`IsChain.unique`), so a chain does not come back to a commit of its own, and the walk that watches for
repeated ids gives exactly the chain (`chain_eq_ok_iff`).
-/
namespace DeployInventory

namespace History

/-- **The chain of a start**: from it the parents lead through the commits, in this order, to one without a parent. -/
inductive IsChain (commits : NameMap Commit) : Option CommitId → List Commit → Prop where
  | none : IsChain commits none []
  | cons {id c l} (hc : commits.find? id = some c) (hl : IsChain commits c.parent l) :
    IsChain commits (some id) (c :: l)

variable {commits : NameMap Commit} {start : Option CommitId} {id : CommitId} {c : Commit} {l : List Commit}

/-- **A start has one chain at most.** -/
theorem IsChain.unique (hl : IsChain commits start l) : ∀ {k}, IsChain commits start k → l = k := by
  induction hl with
  | none =>
    intro k hk
    cases hk
    rfl
  | cons hc _ ih =>
    intro k hk
    cases hk with
    | cons hd hk =>
      obtain rfl := Option.some.inj (hc.symm.trans hd)
      rw [ih hk]

theorem IsChain.rest_of_mem (hids : ∀ i c, commits.find? i = some c → c.id = i) (hl : IsChain commits start l)
    (hc : c ∈ l) : ∃ k, IsChain commits (some c.id) k ∧ k.length ≤ l.length := by
  induction hl with
  | none => cases hc
  | cons hd hrest ih =>
    rcases List.mem_cons.1 hc with rfl | hc
    · exact ⟨_, hids _ _ hd ▸ hrest.cons hd, Nat.le_refl _⟩
    · obtain ⟨k, hk, hle⟩ := ih hc
      exact ⟨k, hk, Nat.le_succ_of_le hle⟩

/-! ## The steps of the walk -/

section Walk

variable {branch : String} {met : List CommitId}

theorem chain_of_met (hm : id ∈ met) : chain commits branch met (some id) = .error .noAnswer := by
  rw [chain, dif_pos hm]

theorem chain_of_missing (hm : id ∉ met) (hc : commits.find? id = none) :
    chain commits branch met (some id) = .error (.brokenChain branch id) := by
  rw [chain, dif_neg hm]
  split
  · rfl
  · rename_i hd
    rw [hc] at hd
    cases hd

theorem chain_of_stored (hm : id ∉ met) (hc : commits.find? id = some c) :
    chain commits branch met (some id) = (chain commits branch (id :: met) c.parent).map (c :: ·) := by
  rw [chain, dif_neg hm]
  split
  · rename_i hd
    rw [hc] at hd
    cases hd
  · rename_i d hd
    rw [Option.some.inj (hc.symm.trans hd)]

theorem isChain_of_chain : ∀ {l : List Commit}, chain commits branch met start = .ok l → IsChain commits start l := by
  induction met, start using chain.induct commits with
  | case1 met =>
    intro l h
    rw [chain, Except.ok.injEq] at h
    exact h ▸ .none
  | case2 met id hm =>
    intro l h
    rw [chain_of_met hm] at h
    cases h
  | case3 met id hm hc =>
    intro l h
    rw [chain_of_missing hm hc] at h
    cases h
  | case4 met id hm c hc _ ih =>
    intro l h
    rw [chain_of_stored hm hc] at h
    obtain ⟨l, hl, rfl⟩ := map_eq_ok_iff.1 h
    exact (ih hl).cons hc

/-- The walk does not come to an id that it has met: the chains of these are longer than what is left to walk. -/
theorem IsChain.chain_eq (hl : IsChain commits start l) :
    ∀ {met : List CommitId}, (∀ i ∈ met, ∀ k, IsChain commits (some i) k → l.length < k.length) →
      chain commits branch met start = .ok l := by
  induction hl with
  | none =>
    intro met _
    rw [chain]
  | @cons id c l hc hl ih =>
    intro met hmet
    have hm : id ∉ met := fun hm => Nat.lt_irrefl _ (hmet id hm _ (hl.cons hc))
    have hrest : chain commits branch (id :: met) c.parent = .ok l := by
      refine ih fun i hi k hk => ?_
      rcases List.mem_cons.1 hi with rfl | hi
      · rw [← (hl.cons hc).unique hk]
        exact Nat.lt_succ_self _
      · exact Nat.lt_of_succ_lt (hmet i hi k hk)
    rw [chain_of_stored hm hc, hrest]
    rfl

end Walk

/-- **The walk gives the chain.** -/
theorem chain_eq_ok_iff {branch : String} : chain commits branch [] start = .ok l ↔ IsChain commits start l :=
  ⟨isChain_of_chain, fun hl => hl.chain_eq (by simp)⟩

theorem log_of_unknown {h : History} {branch : String} (hb : h.branches.find? branch = none) :
    h.log branch = .error (.unknownBranch branch) := by
  rw [log, History.branch, hb]
  rfl

theorem log_of_branch {h : History} {branch : String} {b : Branch} (hb : h.branches.find? branch = some b) :
    h.log branch = chain h.commits branch [] b.head := by
  rw [log, History.branch, hb]
  rfl

theorem log_eq_ok_iff {h : History} {branch : String} :
    h.log branch = .ok l ↔ ∃ b, h.branches.find? branch = some b ∧ IsChain h.commits b.head l := by
  unfold log
  rw [bind_eq_ok_iff]
  constructor
  · rintro ⟨b, hb, hl⟩
    refine ⟨b, ?_, chain_eq_ok_iff.1 hl⟩
    unfold History.branch at hb
    split at hb
    · rename_i b' hb'
      rw [hb', Except.ok.inj hb]
    · cases hb
  · rintro ⟨b, hb, hl⟩
    exact ⟨b, by rw [History.branch, hb], chain_eq_ok_iff.2 hl⟩

/-- **A change of the commits that keeps their parents** takes chains to chains. -/
theorem IsChain.map {commits' : NameMap Commit} {f : Commit → Commit} (hparent : ∀ c, (f c).parent = c.parent)
    (hf : ∀ i c, commits.find? i = some c → commits'.find? i = some (f c)) (hl : IsChain commits start l) :
    IsChain commits' start (l.map f) := by
  induction hl with
  | none => exact .none
  | @cons id c l hc _ ih =>
    rw [← hparent] at ih
    exact .cons (hf id c hc) ih

end History

end DeployInventory
