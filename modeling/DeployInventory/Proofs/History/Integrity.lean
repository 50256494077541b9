import DeployInventory.Proofs.History.Walk
import DeployInventory.Proofs.Inventory.Consistent
import DeployInventory.Proofs.NameMap
/-!
# Proofs.History.Integrity — what holds of every history that operations make

Commits are stored under the ids that are computed for them, and every id that a commit or a branch refers to is one of
a stored commit. An operation keeps that even where a new commit takes the place of one that is stored under its id, so
nothing is asked of the hash (`Outcome.intact`). A walk along the parents then misses no commit (`run_intact`).
-/
namespace DeployInventory
namespace History

/-- **A history that refers to nothing but what it stores**, each commit and branch under its own name. -/
structure Intact (h : History) : Prop where
  ids : h.commits.All fun i c => c.id = i ∧ i = CommitId.of c.parent c.records
  parents : h.commits.All fun _ c => ∀ p ∈ c.parent, p ∈ h.commits.names
  heads : h.branches.All fun _ b => ∀ i ∈ b.head, i ∈ h.commits.names
  named : h.branches.All fun n b => b.name = n

variable {h h' : History} {o : Operation} {ops : List Operation} {d? : Option Commit} {branch other : String}
  {start : Option CommitId} {missing : CommitId} {met : List CommitId} {s : Cursor} {links : Nat}
  {r : Except HistoryError (List Commit)}

/-! ## Operations -/

theorem intact_initial : initial.Intact := by
  refine ⟨.empty _, .empty _, ?_, ?_⟩
  · exact NameMap.All.insert (.empty _) fun i hi => by cases hi
  · exact NameMap.All.insert (.empty _) rfl

/-- **An operation keeps a history intact**, whatever is stored under the id of the commit that it stores. -/
theorem Outcome.intact (ho : Outcome h o d? h') (hh : h.Intact) : h'.Intact := by
  cases ho with
  | unchanged => exact hh
  | @branched name existing b hname hb =>
    have hhead : ∀ i ∈ b.head, i ∈ h.commits.names := hh.heads existing b hb
    exact ⟨hh.ids, hh.parents, hh.heads.insert hhead, hh.named.insert rfl⟩
  | @committed branch message records b hb =>
    have hhead : ∀ i ∈ b.head, i ∈ h.commits.names := hh.heads branch b hb
    have hname : b.name = branch := hh.named branch b hb
    -- what was stored is still stored, if only under the id of the new commit
    have hstays : ∀ i ∈ h.commits.names, i ∈ (h.commits.insert (b.next message records).id
        (b.next message records)).names := fun i hi => NameMap.mem_names_insert.2 (.inr hi)
    refine ⟨hh.ids.insert ⟨rfl, rfl⟩, NameMap.All.insert ?parents fun p hp => hstays p (hhead p hp),
      NameMap.All.insert ?heads ?head, hh.named.insert hname⟩
    case parents => exact fun i c hc p hp => hstays p (hh.parents i c hc p hp)
    case heads => exact fun n b' hb' i hi => hstays i (hh.heads n b' hb' i hi)
    case head =>
      intro i hi
      obtain rfl := Option.mem_some_iff.1 hi
      exact NameMap.mem_names_insert.2 (.inl rfl)

theorem Intact.performAll : ∀ {ops : List Operation} {h : History}, h.Intact → (h.performAll ops).Intact
  | [], _, hh => hh
  | o :: ops, h, hh => by
    have hstep : (h.perform o).Intact := (outcome_perform h o).intact hh
    have hrest : ((h.perform o).performAll ops).Intact := Intact.performAll hstep
    exact hrest

theorem intact_run (ops : List Operation) : (run ops).Intact := intact_initial.performAll

/-! ## Walks -/

/-- **The walk from an id that is stored misses no commit.** -/
theorem Intact.chain_ne_broken (hh : h.Intact) (hstart : ∀ i ∈ start, i ∈ h.commits.names) :
    chain h.commits branch met start ≠ .error (.brokenChain other missing) := by
  induction met, start using chain.induct h.commits with
  | case1 met =>
    rw [chain]
    simp
  | case2 met id hm =>
    rw [chain_of_met hm]
    simp
  | case3 met id hm hc =>
    obtain ⟨c, hc'⟩ := NameMap.mem_names.1 (hstart id rfl)
    rw [hc] at hc'
    cases hc'
  | case4 met id hm c hc _ ih =>
    rw [chain_of_stored hm hc, Ne, map_eq_error_iff]
    exact ih (hh.parents id c hc)

/-- The loop that does not watch for ids that it has met, if it ends, ends with commits. -/
theorem Intact.ends (hh : h.Intact) (he : Ends h.commits branch links s r)
    (hs : ∀ i ∈ s.next, i ∈ h.commits.names) : ∃ l, r = .ok l := by
  induction he with
  | @ended s r ht =>
    obtain ⟨collected, next⟩ := s
    cases next with
    | none => exact ⟨_, (Stage.ended.inj ht).symm⟩
    | some id =>
      obtain ⟨c, hc⟩ := NameMap.mem_names.1 (hs id rfl)
      rw [turn_of_stored hc] at ht
      cases ht
  | @running links s s' r ht _ ih =>
    obtain ⟨collected, next⟩ := s
    cases next with
    | none => cases ht
    | some id =>
      obtain ⟨c, hc⟩ := NameMap.mem_names.1 (hs id rfl)
      rw [turn_of_stored hc] at ht
      obtain rfl := Stage.running.inj ht
      exact ih (hh.parents id c hc)

/-- **What holds after every run**, also where commits of different contents have one id: a commit is stored under its
id, which is computed from its parent and its records; the parent of every commit and the head of every branch are
stored; and a branch is stored under its name. So the log and the records of a branch never miss a commit. -/
theorem run_intact (ops : List Operation) :
    (run ops).Intact ∧
    ∀ branch b, (run ops).branches.find? branch = some b →
      (∀ other missing, (run ops).log branch ≠ .error (.brokenChain other missing) ∧
        (run ops).records branch ≠ .error (.brokenChain other missing)) ∧
      ∀ links r, Ends (run ops).commits branch links ⟨[], b.head⟩ r →
        ∃ l, r = .ok l ∧ (run ops).log branch = .ok l := by
  have hh : (run ops).Intact := intact_run ops
  refine ⟨hh, fun branch b hb => ⟨fun other missing => ?_, fun links r he => ?_⟩⟩
  · have hlog : (run ops).log branch ≠ .error (.brokenChain other missing) := by
      rw [log_of_branch hb]
      exact hh.chain_ne_broken (hh.heads branch b hb)
    exact ⟨hlog, fun hrecords => hlog (records_eq_error_iff.1 hrecords)⟩
  · obtain ⟨l, rfl⟩ := hh.ends he (hh.heads branch b hb)
    obtain ⟨_, -, hchain, -⟩ := exists_ends_chain branch (exists_ends_iff.1 ⟨links, _, he⟩)
    rw [log_of_branch hb]
    exact ⟨l, rfl, (he.unique hchain).2⟩

/-- Two branches store a commit under one id, and each still has its own log. -/
theorem live_intact : (run (liveOnMain ++ [liveOnFeature])).Intact ∧
    (run (liveOnMain ++ [liveOnFeature])).branches.find? defaultBranch =
      some ⟨defaultBranch, some (liveCommit "first").id⟩ ∧
    (run (liveOnMain ++ [liveOnFeature])).log defaultBranch ≠
      .error (.brokenChain defaultBranch (liveCommit "first").id) ∧
    Ends (run (liveOnMain ++ [liveOnFeature])).commits defaultBranch 1 ⟨[], some (liveCommit "first").id⟩
      (.ok [liveCommit "second"]) ∧
    (run (liveOnMain ++ [liveOnFeature])).log defaultBranch = .ok [liveCommit "second"] := by
  have hb : (run (liveOnMain ++ [liveOnFeature])).branches.find? defaultBranch =
      some ⟨defaultBranch, some (liveCommit "first").id⟩ := rfl
  have hends : Ends (run (liveOnMain ++ [liveOnFeature])).commits defaultBranch 1
      ⟨[], some (liveCommit "first").id⟩ (.ok [liveCommit "second"]) :=
    .running (turn_of_stored (NameMap.find?_insert_self _ _ _)) (.ended rfl)
  obtain ⟨hintact, hwalks⟩ := run_intact (liveOnMain ++ [liveOnFeature])
  obtain ⟨hbroken, hloop⟩ := hwalks defaultBranch _ hb
  obtain ⟨l, hl, hlog⟩ := hloop 1 _ hends
  exact ⟨hintact, hb, (hbroken _ _).1, hends, hlog.trans hl.symm⟩

end History

end DeployInventory
