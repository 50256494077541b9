import DeployInventory.Proofs.History.Chain
import DeployInventory.Proofs.Replay
/-!
# Proofs.History.Run — what operations leave of the commits and the logs

In a run whose commits have one id only where they have one content, every stored commit is one that the run stored
and every branch has a log (`sound_run`). A commit keeps its parent and its records for the rest of the run, but it gets
the message of the last commit that is stored under its id, from whatever branch; the log of a branch changes in no
other way under operations on other branches, and a commit on the branch goes in front of it (`run_logs`).
-/
namespace DeployInventory

namespace Commit

/-- What the id of a commit is computed from. -/
def content (c : Commit) : Option CommitId × List Record := (c.parent, c.records)

/-- **A commit with the message of the last one of a list that has its id**; with its own if there is none. -/
def relabel (ds : List Commit) (c : Commit) : Commit :=
  { c with message := ((lastWith? Commit.id c.id ds).getD c).message }

variable {c d : Commit} {ds es : List Commit}

theorem relabel_of_ne (h : ∀ d ∈ ds, d.id ≠ c.id) : relabel ds c = c := by
  have hnone : ds.filter (·.id == c.id) = [] := List.filter_eq_nil_iff.2 fun d hd => by simpa using h d hd
  rw [relabel, lastWith?, hnone]
  rfl

theorem relabel_singleton_of_content (hid : d.id = c.id) (h : c.content = d.content) : relabel [d] c = d := by
  obtain ⟨hparent, hrecords⟩ := Prod.mk.inj h
  rw [relabel, lastWith?, List.filter_cons_of_pos (by simpa using hid), ← hid, hparent, hrecords]
  rfl

theorem relabel_eq_self_iff :
    relabel ds c = c ↔ ∀ d, lastWith? Commit.id c.id ds = some d → d.message = c.message := by
  unfold relabel
  cases c with
  | mk id parent message records => cases lastWith? Commit.id id ds <;> simp

theorem relabel_append : relabel (ds ++ es) c = relabel es (relabel ds c) := by
  unfold relabel
  rw [lastWith?_append]
  cases lastWith? Commit.id c.id es <;> rfl

end Commit

/-- The commit that committing to a branch stores. -/
def Branch.next (b : Branch) (message : String) (records : List Record) : Commit :=
  ⟨.of b.head records, b.head, message, records⟩

namespace History

/-- **An operation on a history.** -/
inductive Operation where
  | commit (branch message : String) (records : List Record)
  | branchFrom (name existing : String)

/-- The branch that an operation changes. -/
def Operation.target : Operation → String
  | .commit branch _ _ => branch
  | .branchFrom name _ => name

/-- **Performs an operation**; one that fails leaves the history as it is. -/
def perform (h : History) : Operation → History
  | .commit branch message records => ((h.commit branch message records).map Prod.fst).toOption.getD h
  | .branchFrom name existing => (h.branchFrom name existing).toOption.getD h

def performAll (h : History) (ops : List Operation) : History := ops.foldl perform h

/-- **The history that operations make of the one without commits.** -/
def run (ops : List Operation) : History := initial.performAll ops

/-- The commit that an operation stores, if it stores one. -/
def stores? (h : History) : Operation → Option Commit
  | .commit branch message records => (h.branches.find? branch).map (·.next message records)
  | .branchFrom _ _ => none

/-- The commits that operations store, in their order. -/
def stores (h : History) : List Operation → List Commit
  | [] => []
  | o :: ops => (h.stores? o).toList ++ (h.perform o).stores ops

/-- **Commits have one id only where they have one content.** -/
def DistinctIds (commits : List Commit) : Prop := ∀ c ∈ commits, ∀ d ∈ commits, c.id = d.id → c.content = d.content

/-! ## What an operation does -/

/-- A history with one more commit, on a branch. -/
def extend (h : History) (branch : String) (b : Branch) (d : Commit) : History :=
  ⟨h.commits.insert d.id d, h.branches.insert branch { b with head := some d.id }⟩

/-- **What an operation stores and what it leaves of a history.** -/
inductive Outcome (h : History) : Operation → Option Commit → History → Prop where
  | unchanged {o} : Outcome h o none h
  | committed {branch message records b} (hb : h.branches.find? branch = some b) :
    Outcome h (.commit branch message records) (some (b.next message records))
      (h.extend branch b (b.next message records))
  | branched {name existing b} (hname : h.branches.find? name = none) (hb : h.branches.find? existing = some b) :
    Outcome h (.branchFrom name existing) none ⟨h.commits, h.branches.insert name ⟨name, b.head⟩⟩

variable {h h' : History} {o : Operation} {ops more : List Operation} {branch message : String} {b : Branch}
  {records : List Record} {past ds : List Commit} {c d : Commit} {d? : Option Commit} {l : List Commit}
  {i : CommitId}

theorem commit_eq (hb : h.branches.find? branch = some b) :
    h.commit branch message records = .ok (h.extend branch b (b.next message records), .of b.head records) := by
  rw [commit, History.branch, hb]
  rfl

theorem perform_commit (hb : h.branches.find? branch = some b) :
    h.perform (.commit branch message records) = h.extend branch b (b.next message records) := by
  rw [perform, commit_eq hb]
  rfl

theorem outcome_perform (h : History) : ∀ o, Outcome h o (h.stores? o) (h.perform o)
  | .commit branch message records => by
    cases hb : h.branches.find? branch with
    | none =>
      rw [perform, commit, History.branch, stores?, hb]
      exact .unchanged
    | some b =>
      rw [perform_commit hb, stores?, hb]
      exact .committed hb
  | .branchFrom name existing => by
    rw [perform, branchFrom, NameMap.contains, History.branch]
    cases hname : h.branches.find? name with
    | some _ => exact .unchanged
    | none =>
      cases hb : h.branches.find? existing with
      | none => exact .unchanged
      | some b => exact .branched hname hb

theorem performAll_append : h.performAll (ops ++ more) = (h.performAll ops).performAll more := List.foldl_append

theorem stores_append : ∀ {ops : List Operation} {h : History},
    h.stores (ops ++ more) = h.stores ops ++ (h.performAll ops).stores more
  | [], _ => rfl
  | o :: ops, h => by
    rw [List.cons_append, stores, stores, stores_append, List.append_assoc]
    rfl

theorem DistinctIds.of_append (hd : DistinctIds (past ++ ds)) : DistinctIds past :=
  fun c hc d he => hd c (List.mem_append_left _ hc) d (List.mem_append_left _ he)

/-! ## What an operation keeps -/

/-- **What operations keep**: a commit is stored under its id, by one of them, and every branch has a chain. -/
structure Sound (h : History) (past : List Commit) : Prop where
  stored : ∀ i c, h.commits.find? i = some c → c.id = i ∧ c ∈ past
  chains : ∀ n b, h.branches.find? n = some b → ∃ l, IsChain h.commits b.head l

theorem sound_initial : Sound initial [] := by
  refine ⟨fun i c hc => (by cases hc), fun n b hb => ⟨[], ?_⟩⟩
  rw [initial, NameMap.ofList, List.foldl_cons, List.foldl_nil, NameMap.find?_insert] at hb
  split at hb
  · rw [← Option.some.inj hb]
    exact .none
  · cases hb

theorem Sound.ids (hs : Sound h past) : ∀ i c, h.commits.find? i = some c → c.id = i :=
  fun i c hc => (hs.stored i c hc).1

theorem Sound.content_eq (hs : Sound h past) (hd : DistinctIds (past ++ [d])) (hc : h.commits.find? d.id = some c) :
    c.content = d.content :=
  hd c (List.mem_append_left _ (hs.stored _ _ hc).2) d (by simp) (hs.ids _ _ hc)

/-- **A stored commit stays**, with the message of the one that an operation stores under its id. -/
theorem Outcome.find?_commits (ho : Outcome h o d? h') (hs : Sound h past) (hd : DistinctIds (past ++ d?.toList))
    (hc : h.commits.find? i = some c) : h'.commits.find? i = some (c.relabel d?.toList) := by
  cases ho with
  | unchanged => exact hc
  | branched _ _ => exact hc
  | @committed branch message records b hb =>
    have hi : c.id = i := hs.ids _ _ hc
    rw [extend, NameMap.find?_insert]
    split
    · -- the new commit takes the place of one with its content
      rename_i hid
      subst hid
      exact congrArg some (Commit.relabel_singleton_of_content hi.symm (hs.content_eq hd hc)).symm
    · rename_i hid
      rw [Option.toList_some, Commit.relabel_of_ne (by simpa [hi] using hid), hc]

theorem Outcome.isChain (ho : Outcome h o d? h') (hs : Sound h past) (hd : DistinctIds (past ++ d?.toList))
    {start : Option CommitId} (hl : IsChain h.commits start l) :
    IsChain h'.commits start (l.map (Commit.relabel d?.toList)) :=
  hl.map (fun _ => rfl) fun _ _ => ho.find?_commits hs hd

theorem Sound.ne_of_mem (hs : Sound h past) (hd : DistinctIds (past ++ [d])) (hl : IsChain h.commits d.parent l)
    (hc : c ∈ l) : d.id ≠ c.id := by
  intro hid
  -- from its id on the chain would be longer than the chain behind it, of which it is a part
  obtain ⟨k, hk, hle⟩ := hl.rest_of_mem hs.ids hc
  rw [← hid] at hk
  cases hk with
  | @cons _ e k he hk =>
    have hparent : e.parent = d.parent := congrArg Prod.fst (hs.content_eq hd he)
    rw [hparent] at hk
    rw [hk.unique hl] at hle
    exact Nat.lt_irrefl _ hle

/-- **The chain of a branch after a commit on it** is the commit and the chain before. -/
theorem Sound.isChain_next (hs : Sound h past) (hb : h.branches.find? branch = some b)
    (hd : DistinctIds (past ++ [b.next message records])) (hl : IsChain h.commits b.head l) :
    IsChain (h.extend branch b (b.next message records)).commits (some (b.next message records).id)
      (b.next message records :: l) := by
  have hmap : l.map (Commit.relabel [b.next message records]) = l := by
    refine (List.map_congr_left fun c hc => Commit.relabel_of_ne fun e he => ?_).trans (List.map_id' l)
    rw [List.mem_singleton.1 he]
    exact hs.ne_of_mem hd hl hc
  have hrest := (Outcome.committed hb).isChain hs hd hl
  rw [Option.toList_some, hmap] at hrest
  exact .cons (NameMap.find?_insert_self _ _ _) hrest

/-- **An operation keeps a history sound.** -/
theorem Outcome.sound (ho : Outcome h o d? h') (hs : Sound h past) (hd : DistinctIds (past ++ d?.toList)) :
    Sound h' (past ++ d?.toList) := by
  cases ho with
  | unchanged => simpa using hs
  | @branched name existing b hname hb =>
    refine ⟨by simpa using hs.stored, fun n b' hb' => ?_⟩
    rw [NameMap.find?_insert] at hb'
    split at hb'
    · obtain ⟨l, hl⟩ := hs.chains _ _ hb
      rw [← Option.some.inj hb']
      exact ⟨l, hl⟩
    · exact hs.chains _ _ hb'
  | @committed branch message records b hb =>
    refine ⟨fun i c hc => ?_, fun n b' hb' => ?_⟩
    · rw [extend, NameMap.find?_insert] at hc
      split at hc
      · rename_i hid
        rw [← Option.some.inj hc]
        exact ⟨hid, by simp⟩
      · exact ⟨hs.ids _ _ hc, List.mem_append_left _ (hs.stored _ _ hc).2⟩
    · rw [extend, NameMap.find?_insert] at hb'
      split at hb'
      · obtain ⟨l, hl⟩ := hs.chains _ _ hb
        rw [← Option.some.inj hb']
        exact ⟨_, hs.isChain_next hb hd hl⟩
      · obtain ⟨l, hl⟩ := hs.chains _ _ hb'
        exact ⟨_, (Outcome.committed hb).isChain hs hd hl⟩

theorem Outcome.find?_branches (ho : Outcome h o d? h') (hb : o.target ≠ branch) :
    h'.branches.find? branch = h.branches.find? branch := by
  cases ho with
  | unchanged => rfl
  | branched _ _ => exact (NameMap.find?_insert _ _ _ _).trans (if_neg hb)
  | committed _ => exact (NameMap.find?_insert _ _ _ _).trans (if_neg hb)

/-! ## What a run keeps -/

theorem Sound.performAll : ∀ {ops : List Operation} {h : History} {past : List Commit}, Sound h past →
    DistinctIds (past ++ h.stores ops) → Sound (h.performAll ops) (past ++ h.stores ops)
  | [], _, _, hs, _ => by simpa [History.performAll, stores] using hs
  | o :: ops, h, past, hs, hd => by
    rw [stores, ← List.append_assoc] at hd ⊢
    exact Sound.performAll ((outcome_perform h o).sound hs hd.of_append) hd

theorem sound_run (hd : DistinctIds (initial.stores ops)) : Sound (run ops) (initial.stores ops) :=
  sound_initial.performAll hd

theorem Sound.find?_performAll : ∀ {ops : List Operation} {h : History} {past : List Commit} {c : Commit},
    Sound h past → DistinctIds (past ++ h.stores ops) → h.commits.find? i = some c →
      (h.performAll ops).commits.find? i = some (c.relabel (h.stores ops))
  | [], _, _, _, _, _, hc => hc
  | o :: ops, h, past, c, hs, hd, hc => by
    have ho := outcome_perform h o
    rw [stores, ← List.append_assoc] at hd
    rw [stores, Commit.relabel_append]
    exact Sound.find?_performAll (ho.sound hs hd.of_append) hd (ho.find?_commits hs hd.of_append hc)

theorem find?_branches_performAll : ∀ {ops : List Operation} {h : History}, (∀ o ∈ ops, o.target ≠ branch) →
    (h.performAll ops).branches.find? branch = h.branches.find? branch
  | [], _, _ => rfl
  | o :: ops, h, hb => by
    have hrest : ((h.perform o).performAll ops).branches.find? branch = (h.perform o).branches.find? branch :=
      find?_branches_performAll fun o ho => hb o (List.mem_cons_of_mem _ ho)
    exact hrest.trans ((outcome_perform h o).find?_branches (hb o List.mem_cons_self))

/-- **Every branch has a log**, the chain from its head. -/
theorem Sound.log_eq (hs : Sound h past) (hb : h.branches.find? branch = some b) :
    ∃ l, h.log branch = .ok l ∧ IsChain h.commits b.head l := by
  obtain ⟨l, hl⟩ := hs.chains _ _ hb
  exact ⟨l, log_eq_ok_iff.2 ⟨b, hb, hl⟩, hl⟩

theorem Sound.log_performAll (hs : Sound h past) (hd : DistinctIds (past ++ h.stores ops))
    (ho : ∀ o ∈ ops, o.target ≠ branch) :
    (h.performAll ops).log branch = (h.log branch).map (List.map (Commit.relabel (h.stores ops))) := by
  have hb := find?_branches_performAll (h := h) ho
  cases hbranch : h.branches.find? branch with
  | none =>
    rw [hbranch] at hb
    rw [log, log, History.branch, History.branch, hb, hbranch]
    rfl
  | some b =>
    obtain ⟨l, hlog, hl⟩ := hs.log_eq hbranch
    rw [hlog]
    refine log_eq_ok_iff.2 ⟨b, hb.trans hbranch, ?_⟩
    exact hl.map (fun _ => rfl) fun _ _ => hs.find?_performAll hd

theorem Sound.log_extend (hs : Sound h past) (hb : h.branches.find? branch = some b)
    (hd : DistinctIds (past ++ [b.next message records])) (hl : IsChain h.commits b.head l) :
    (h.extend branch b (b.next message records)).log branch = .ok (b.next message records :: l) :=
  log_eq_ok_iff.2 ⟨_, NameMap.find?_insert_self _ _ _, hs.isChain_next hb hd hl⟩

/-- **What a run leaves of commits and logs.** A stored commit keeps its parent and records, and it has the message of
the last later commit with its id, so it stays as it is just if that has its message; so do the entries of a log while
no operation is on its branch. Every branch has a log, and a commit on the branch goes in front of it. -/
theorem run_logs (ops more : List Operation) (hd : DistinctIds (initial.stores (ops ++ more))) :
    (∀ i c, (run ops).commits.find? i = some c →
      (run (ops ++ more)).commits.find? i = some (c.relabel ((run ops).stores more)) ∧
      (c.relabel ((run ops).stores more) = c ↔
        ∀ d, lastWith? Commit.id i ((run ops).stores more) = some d → d.message = c.message)) ∧
    (∀ branch, (∀ o ∈ more, o.target ≠ branch) →
      (run (ops ++ more)).log branch = ((run ops).log branch).map (List.map (Commit.relabel ((run ops).stores more)))) ∧
    ∀ branch b, (run ops).branches.find? branch = some b →
      ∃ l, (run ops).log branch = .ok l ∧
        ∀ message records rest, more = .commit branch message records :: rest →
          (run ops).commit branch message records =
            .ok (run (ops ++ [.commit branch message records]), (b.next message records).id) ∧
          (run (ops ++ [.commit branch message records])).log branch = .ok (b.next message records :: l) := by
  have hd : DistinctIds (initial.stores ops ++ (run ops).stores more) := by
    rw [stores_append] at hd
    exact hd
  have hs : Sound (run ops) (initial.stores ops) := sound_run hd.of_append
  have hrun : ∀ more, run (ops ++ more) = (run ops).performAll more := fun _ => performAll_append
  refine ⟨fun i c hc => ?_, fun branch ho => ?_, fun branch b hb => ?_⟩
  · rw [hrun]
    exact ⟨hs.find?_performAll hd hc, hs.ids i c hc ▸ Commit.relabel_eq_self_iff⟩
  · rw [hrun]
    exact hs.log_performAll hd ho
  · obtain ⟨l, hlog, hl⟩ := hs.log_eq hb
    refine ⟨l, hlog, ?_⟩
    rintro message records rest rfl
    have hnext : run (ops ++ [.commit branch message records]) = (run ops).extend branch b (b.next message records) :=
      (hrun _).trans (perform_commit hb)
    have hfirst : DistinctIds (initial.stores ops ++ [b.next message records]) := by
      rw [stores, stores?, hb, ← List.append_assoc] at hd
      exact hd.of_append
    rw [hnext]
    exact ⟨commit_eq hb, hs.log_extend hb hfirst hl⟩

def liveRecords : List Record := [.environment { name := "live" }]

/-- The commit that brings the records into an empty branch. -/
def liveCommit (message : String) : Commit := ⟨.of none liveRecords, none, message, liveRecords⟩

/-- A commit on one of two empty branches. -/
def liveOnMain : List Operation := [.branchFrom "feature" defaultBranch, .commit defaultBranch "first" liveRecords]

/-- The same records on the other one. -/
def liveOnFeature : Operation := .commit "feature" "second" liveRecords

theorem distinctIds_live : DistinctIds (initial.stores (liveOnMain ++ [liveOnFeature])) := by
  have hstores : initial.stores (liveOnMain ++ [liveOnFeature]) = [liveCommit "first", liveCommit "second"] := rfl
  have hcontent : ∀ c ∈ [liveCommit "first", liveCommit "second"], c.content = (none, liveRecords) := by
    simp [liveCommit, Commit.content]
  rw [hstores]
  exact fun c hc d hd _ => (hcontent c hc).trans (hcontent d hd).symm

theorem live_logs : DistinctIds (initial.stores (liveOnMain ++ [liveOnFeature])) ∧
    (run (liveOnMain ++ [liveOnFeature])).log defaultBranch =
      ((run liveOnMain).log defaultBranch).map (List.map (Commit.relabel [liveCommit "second"])) :=
  ⟨distinctIds_live, (run_logs liveOnMain [liveOnFeature] distinctIds_live).2.1 defaultBranch (by decide)⟩

/-- **A commit of the same records on another branch changes a log.** -/
theorem live_relabeled : DistinctIds (initial.stores (liveOnMain ++ [liveOnFeature])) ∧
    liveOnFeature.target ≠ defaultBranch ∧ (run liveOnMain).log defaultBranch = .ok [liveCommit "first"] ∧
    (run (liveOnMain ++ [liveOnFeature])).log defaultBranch = .ok [liveCommit "second"] ∧
    liveCommit "first" ≠ liveCommit "second" := by
  refine ⟨distinctIds_live, by decide, ?_, ?_, fun h => absurd (congrArg Commit.message h) (by decide)⟩
  · exact log_eq_ok_iff.2 ⟨⟨defaultBranch, some (liveCommit "first").id⟩, rfl,
      .cons (NameMap.find?_insert_self _ _ _) .none⟩
  · exact log_eq_ok_iff.2 ⟨⟨defaultBranch, some (liveCommit "first").id⟩, rfl,
      .cons (NameMap.find?_insert_self _ _ _) .none⟩

end History

end DeployInventory
