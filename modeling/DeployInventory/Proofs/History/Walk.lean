import DeployInventory.History.Wire
import DeployInventory.Proofs.History.Run
import Mathlib.Logic.Relation
/-!
# Proofs.History.Walk — the loop along the parents, and when it ends

`turn` looks up one commit and goes on to its parent; it does not watch for commits that it has met. The loop ends just
when no commit that the head leads to leads back to itself (`exists_ends_iff`), and then with what the watchful walk
gives, after no more links than there are commits. A history that is read may hold such a commit, since nothing is
checked of how its commits hang together; one that operations have made does not (`not_circular_run`).
-/
namespace DeployInventory
namespace History

/-- A state of the loop: the commits collected, the last first, and the id that is looked up next. -/
structure Cursor where
  collected : List Commit
  next : Option CommitId

inductive Stage where
  | running (s : Cursor)
  | ended (result : Except HistoryError (List Commit))

/-- **One turn of the loop.** -/
def turn (commits : NameMap Commit) (branch : String) (s : Cursor) : Stage :=
  match s.next with
  | none => .ended (.ok s.collected.reverse)
  | some id =>
    match commits.find? id with
    | none => .ended (.error (.brokenChain branch id))
    | some c => .running ⟨c :: s.collected, c.parent⟩

/-- **The loop ends with a result**, after it has followed so many parent links. -/
inductive Ends (commits : NameMap Commit) (branch : String) :
    Nat → Cursor → Except HistoryError (List Commit) → Prop where
  | ended {s r} (ht : turn commits branch s = .ended r) : Ends commits branch 0 s r
  | running {links s s' r} (ht : turn commits branch s = .running s') (next : Ends commits branch links s' r) :
      Ends commits branch (links + 1) s r

/-- The commit of an id names a parent. -/
def Leads (commits : NameMap Commit) (i p : CommitId) : Prop := ∃ c, commits.find? i = some c ∧ c.parent = some p

/-- **A start leads to a commit that leads back to itself.** -/
def Circular (commits : NameMap Commit) (start : Option CommitId) : Prop :=
  ∃ j i, start = some j ∧ Relation.ReflTransGen (Leads commits) j i ∧ Relation.TransGen (Leads commits) i i

variable {commits : NameMap Commit} {branch : String} {start : Option CommitId} {id i j p : CommitId} {c : Commit}
  {collected : List Commit} {met : List CommitId} {links : Nat} {r : Except HistoryError (List Commit)}

/-! ## The turns of the loop -/

theorem ends_of_first : Ends commits branch 0 ⟨collected, none⟩ (.ok collected.reverse) := .ended rfl

theorem ends_of_missing (hc : commits.find? id = none) :
    Ends commits branch 0 ⟨collected, some id⟩ (.error (.brokenChain branch id)) := by
  refine .ended ?_
  simp only [turn, hc]

theorem turn_of_stored (hc : commits.find? id = some c) :
    turn commits branch ⟨collected, some id⟩ = .running ⟨c :: collected, c.parent⟩ := by
  simp only [turn, hc]

theorem Ends.pred (h : Ends commits branch links ⟨collected, some i⟩ r) (hp : Leads commits i p) :
    ∃ fewer collected', fewer < links ∧ Ends commits branch fewer ⟨collected', some p⟩ r := by
  obtain ⟨c, hc, hparent⟩ := hp
  have ht : turn commits branch ⟨collected, some i⟩ = .running ⟨c :: collected, some p⟩ :=
    hparent ▸ turn_of_stored hc
  cases h with
  | ended ht' => rw [ht] at ht'; cases ht'
  | running ht' next =>
    rw [ht] at ht'
    cases ht'
    exact ⟨_, _, Nat.lt_succ_self _, next⟩

theorem Ends.before (h : Ends commits branch links ⟨collected, some j⟩ r)
    (hi : Relation.TransGen (Leads commits) j i) :
    ∃ fewer collected', fewer < links ∧ Ends commits branch fewer ⟨collected', some i⟩ r := by
  induction hi with
  | single hp => exact h.pred hp
  | tail _ hp ih =>
    obtain ⟨n, l, hn, hl⟩ := ih
    obtain ⟨m, k, hm, hk⟩ := hl.pred hp
    exact ⟨m, k, Nat.lt_trans hm hn, hk⟩

theorem Ends.unique {s : Cursor} (h : Ends commits branch links s r) :
    ∀ {links' r'}, Ends commits branch links' s r' → links' = links ∧ r' = r := by
  induction h with
  | ended ht =>
    intro links' r' h'
    cases h' with
    | ended ht' => exact ⟨rfl, Stage.ended.inj (ht'.symm.trans ht)⟩
    | running ht' _ => rw [ht] at ht'; cases ht'
  | running ht _ ih =>
    intro links' r' h'
    cases h' with
    | ended ht' => rw [ht] at ht'; cases ht'
    | running ht' next =>
      obtain rfl := Stage.running.inj (ht'.symm.trans ht)
      obtain ⟨rfl, rfl⟩ := ih next
      exact ⟨rfl, rfl⟩

/-- **From a commit that leads back to itself the loop does not end.** -/
theorem not_ends_of_transGen (hi : Relation.TransGen (Leads commits) i i) :
    ∀ links, ¬ ∃ collected, Ends commits branch links ⟨collected, some i⟩ r := by
  -- a run that ended would come by the commit again, with fewer links to go
  intro links
  induction links using Nat.strongRecOn with
  | ind links ih =>
    rintro ⟨collected, h⟩
    obtain ⟨fewer, collected', hlt, h'⟩ := h.before hi
    exact ih fewer hlt ⟨collected', h'⟩

theorem Circular.not_ends (hc : Circular commits start) : ¬ Ends commits branch links ⟨collected, start⟩ r := by
  obtain ⟨j, i, rfl, hji, hi⟩ := hc
  intro h
  rcases Relation.reflTransGen_iff_eq_or_transGen.1 hji with rfl | hji
  · exact not_ends_of_transGen hi links ⟨collected, h⟩
  · obtain ⟨fewer, collected', -, h'⟩ := h.before hji
    exact not_ends_of_transGen hi fewer ⟨collected', h'⟩

/-! ## The loop and the walk that watches for commits it has met -/

/-- **What the watchful walk tells of the loop** that starts where it does, whatever has been collected before: its
result, after no more links than there are ids not met, or that the start is circular. -/
inductive Tells (commits : NameMap Commit) (branch : String) (met : List CommitId) (start : Option CommitId) :
    Except HistoryError (List Commit) → Prop where
  | chain {l} (hl : IsChain commits start l) (hle : l.length ≤ (unmet commits.names met).length)
      (hends : ∀ collected, Ends commits branch l.length ⟨collected, start⟩ (.ok (collected.reverse ++ l))) :
      Tells commits branch met start (.ok l)
  | broken {missing links} (hmissing : commits.find? missing = none) (hle : links ≤ (unmet commits.names met).length)
      (hends : ∀ collected, Ends commits branch links ⟨collected, start⟩ (.error (.brokenChain branch missing))) :
      Tells commits branch met start (.error (.brokenChain branch missing))
  | endless (hc : Circular commits start) : Tells commits branch met start (.error .noAnswer)

theorem Circular.of_parent (hi : Leads commits i p) (hc : Circular commits (some p)) : Circular commits (some i) := by
  obtain ⟨j, k, hj, hjk, hk⟩ := hc
  cases hj
  exact ⟨i, k, rfl, .head hi hjk, hk⟩

theorem Circular.exists_parent (hc : Circular commits start) : ∃ p, start = some p := by
  obtain ⟨p, -, hp, -⟩ := hc
  exact ⟨p, hp⟩

theorem tells_chain (hmet : ∀ m ∈ met, ∀ i, start = some i → Relation.TransGen (Leads commits) m i) :
    Tells commits branch met start (chain commits branch met start) := by
  -- along the walk; the invariant is that all ids met lead to the one that comes next
  induction met, start using chain.induct commits with
  | case1 met =>
    rw [History.chain]
    exact .chain .none (Nat.zero_le _) fun collected => by simpa using ends_of_first
  | case2 met id hm =>
    rw [chain_of_met hm]
    exact .endless ⟨id, id, rfl, .refl, hmet id hm id rfl⟩
  | case3 met id hm hc =>
    rw [chain_of_missing hm hc]
    exact .broken hc (Nat.zero_le _) fun collected => ends_of_missing hc
  | case4 met id hm c hc hfewer ih =>
    have hrest : Tells commits branch (id :: met) c.parent (chain commits branch (id :: met) c.parent) := by
      refine ih fun m hm p hp => ?_
      have hid : Leads commits id p := ⟨c, hc, hp⟩
      rcases List.mem_cons.1 hm with rfl | hm
      · exact .single hid
      · exact (hmet m hm id rfl).tail hid
    rw [chain_of_stored hm hc]
    generalize chain commits branch (id :: met) c.parent = out at hrest
    cases hrest with
    | chain hl hle hends =>
      refine .chain (hl.cons hc) (Nat.lt_of_le_of_lt hle hfewer) fun collected => ?_
      have hnext := hends (c :: collected)
      rw [List.reverse_cons, List.append_assoc] at hnext
      exact .running (turn_of_stored hc) hnext
    | broken hmissing hle hends =>
      exact .broken hmissing (Nat.lt_of_le_of_lt hle hfewer) fun collected =>
        .running (turn_of_stored hc) (hends _)
    | endless hcircular =>
      obtain ⟨p, hp⟩ := hcircular.exists_parent
      rw [hp] at hcircular
      exact .endless (hcircular.of_parent ⟨c, hc, hp⟩)

/-- Why a walk that is not endless ends: at a first commit, or at an id without one. -/
def Finishes (commits : NameMap Commit) (branch : String) (start : Option CommitId) (links : Nat)
    (r : Except HistoryError (List Commit)) : Prop :=
  (∃ l, r = .ok l ∧ IsChain commits start l ∧ links = l.length) ∨
    ∃ missing, r = .error (.brokenChain branch missing) ∧ commits.find? missing = none

/-- **Where the start is not circular, the loop ends with what the watchful walk gives.** -/
theorem exists_ends_chain (branch : String) (hc : ¬ Circular commits start) :
    ∃ links ≤ commits.size, Ends commits branch links ⟨[], start⟩ (chain commits branch [] start) ∧
      Finishes commits branch start links (chain commits branch [] start) := by
  have hwalk : Tells commits branch [] start (chain commits branch [] start) := tells_chain (by simp)
  generalize chain commits branch [] start = out at hwalk
  cases hwalk with
  | chain hl hle hends =>
    exact ⟨_, Nat.le_trans hle (commits.length_unmet_le []), hends [], .inl ⟨_, rfl, hl, rfl⟩⟩
  | broken hmissing hle hends =>
    exact ⟨_, Nat.le_trans hle (commits.length_unmet_le []), hends [], .inr ⟨_, rfl, hmissing⟩⟩
  | endless hcircular => exact absurd hcircular hc

/-- **Where it is circular, the watchful walk has no answer.** -/
theorem chain_of_circular (branch : String) (hc : Circular commits start) :
    chain commits branch [] start = .error .noAnswer := by
  have hwalk : Tells commits branch [] start (chain commits branch [] start) := tells_chain (by simp)
  generalize chain commits branch [] start = out at hwalk
  cases hwalk with
  | chain _ _ hends => exact absurd (hends []) hc.not_ends
  | broken _ _ hends => exact absurd (hends []) hc.not_ends
  | endless _ => rfl

theorem exists_ends_iff : (∃ links r, Ends commits branch links ⟨[], start⟩ r) ↔ ¬ Circular commits start := by
  constructor
  · rintro ⟨links, r, h⟩ hc
    exact hc.not_ends h
  · intro hc
    obtain ⟨links, -, h, -⟩ := exists_ends_chain branch hc
    exact ⟨links, _, h⟩

/-! ## Branches -/

theorem snapshot_eq_error_iff {h : History} {e : HistoryError} :
    h.snapshot branch = .error e ↔ h.log branch = .error e := by
  unfold snapshot History.records
  cases h.log branch with
  | error e => simp [Except.map]
  | ok l => simp [Except.map]

theorem records_eq_error_iff {h : History} {e : HistoryError} :
    h.records branch = .error e ↔ h.log branch = .error e := by
  unfold History.records
  cases h.log branch with
  | error e => simp [Except.map]
  | ok l => simp [Except.map]

/-- **Operations make no history that is circular**, if their commits have one id only where they have one content. -/
theorem not_circular_run {ops : List Operation} {b : Branch} (hd : DistinctIds (initial.stores ops))
    (hb : (run ops).branches.find? branch = some b) : ¬ Circular (run ops).commits b.head := by
  obtain ⟨l, hlog, -⟩ := (sound_run hd).log_eq hb
  intro hc
  rw [log_of_branch hb, chain_of_circular branch hc] at hlog
  cases hlog

/-- **Walking a branch of any history.** A branch that there is not is unknown. For one that there is, the loop along
the parents ends just when the head is not circular; it then has followed no more links than there are commits, and the
log is its result: the chain of the head, or a commit that is missing. From a circular head there is no answer. Records
and snapshot fail as the log does. -/
theorem log_walks (h : History) (branch : String) :
    (h.branches.find? branch = none → h.log branch = .error (.unknownBranch branch)) ∧
    (∀ b, h.branches.find? branch = some b →
      ((∃ links r, Ends h.commits branch links ⟨[], b.head⟩ r) ↔ ¬ Circular h.commits b.head) ∧
      (∀ links r, Ends h.commits branch links ⟨[], b.head⟩ r →
        links ≤ h.commits.size ∧ h.log branch = r ∧ Finishes h.commits branch b.head links r) ∧
      (Circular h.commits b.head → h.log branch = .error .noAnswer)) ∧
    ∀ e, (h.records branch = .error e ↔ h.log branch = .error e) ∧
      (h.snapshot branch = .error e ↔ h.log branch = .error e) := by
  refine ⟨log_of_unknown, fun b hb => ?_, fun e => ⟨records_eq_error_iff, snapshot_eq_error_iff⟩⟩
  rw [log_of_branch hb]
  refine ⟨exists_ends_iff, fun links r hends => ?_, chain_of_circular branch⟩
  obtain ⟨links', hle, hends', hfinishes⟩ := exists_ends_chain branch (exists_ends_iff.1 ⟨links, r, hends⟩)
  obtain ⟨rfl, rfl⟩ := hends.unique hends'
  exact ⟨hle, rfl, hfinishes⟩

/-- A file with one commit and one branch, which is at the commit. -/
def document (commit parent : String) : Json :=
  .object
    [("branches", .object [("main", .object [("head", .string commit), ("name", .string "main")])]),
      ("commits", .object [(commit, .object
        [("id", .string commit), ("message", .string ""), ("parent", .string parent), ("records", .array [])])])]

/-- The history in it. -/
def single (commit parent : String) : History :=
  ⟨.ofList [(commit, ⟨commit, some parent, "", []⟩)], .ofList [(defaultBranch, ⟨defaultBranch, some commit⟩)]⟩

theorem circular_single : Circular (single "a" "a").commits (some "a") := by
  have hleads : Leads (single "a" "a").commits "a" "a" := ⟨⟨"a", some "a", "", []⟩, rfl, rfl⟩
  exact ⟨"a", "a", rfl, .refl, .single hleads⟩

/-- A walk that comes to a missing commit, and one that comes back to where it was. -/
theorem single_walks :
    (single "b" "a").branches.find? defaultBranch = some ⟨defaultBranch, some "b"⟩ ∧
    Ends (single "b" "a").commits defaultBranch 1 ⟨[], some "b"⟩ (.error (.brokenChain defaultBranch "a")) ∧
    1 ≤ (single "b" "a").commits.size ∧
    (single "b" "a").log defaultBranch = .error (.brokenChain defaultBranch "a") ∧
    (single "a" "a").branches.find? defaultBranch = some ⟨defaultBranch, some "a"⟩ ∧
    Circular (single "a" "a").commits (some "a") ∧
    (single "a" "a").log defaultBranch = .error .noAnswer := by
  have hends : Ends (single "b" "a").commits defaultBranch 1 ⟨[], some "b"⟩ (.error (.brokenChain defaultBranch "a")) :=
    .running rfl (.ended rfl)
  obtain ⟨-, hbroken, -⟩ := log_walks (single "b" "a") defaultBranch
  obtain ⟨-, hresult, -⟩ := hbroken ⟨defaultBranch, some "b"⟩ rfl
  obtain ⟨hle, hlog, -⟩ := hresult 1 _ hends
  obtain ⟨-, hendless, -⟩ := log_walks (single "a" "a") defaultBranch
  exact ⟨rfl, hends, hle, hlog, rfl, circular_single, (hendless ⟨defaultBranch, some "a"⟩ rfl).2.2 circular_single⟩

/-- **A file can hold a history whose walk does not end.** -/
theorem endless_document : ofJson (document "a" "a") = .ok (single "a" "a") ∧
    (single "a" "a").branches.find? defaultBranch = some ⟨defaultBranch, some "a"⟩ ∧
    (∀ links r, ¬ Ends (single "a" "a").commits defaultBranch links ⟨[], some "a"⟩ r) ∧
    ∀ missing, (single "a" "a").log defaultBranch ≠ .error (.brokenChain defaultBranch missing) := by
  refine ⟨rfl, rfl, fun links r => circular_single.not_ends, fun missing hbroken => ?_⟩
  rw [log_of_branch rfl, chain_of_circular defaultBranch circular_single] at hbroken
  cases hbroken

end History
end DeployInventory
