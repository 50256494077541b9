import DeployInventory.Proofs.History.Run
import DeployInventory.Proofs.Related
/-!
# Proofs.History.Batches — a branch as a list of batches

A ledger holds the batches of records of every branch on their own: a commit adds one at the end, a new branch starts
with a copy of its source's. Branches of a history share commits, and one commit may be stored several times; still the
chain of a branch carries just the batches that the ledger of the same operations has for it (`Refines.perform`). So
records, logs and snapshots are those of independent lists (`run_refines`).
-/
namespace DeployInventory

open History (Operation)

/-- **The batches of records of every branch**, the oldest first. -/
abbrev Ledger := NameMap (List (List Record))

namespace Ledger

def initial : Ledger := .ofList [(History.defaultBranch, [])]

/-- What an operation does to the batches; without its branch, or for a name that is taken, nothing. -/
def perform (m : Ledger) : Operation → Ledger
  | .commit branch _ records =>
    match m.find? branch with
    | some batches => m.insert branch (batches ++ [records])
    | none => m
  | .branchFrom name existing =>
    match m.find? name, m.find? existing with
    | none, some batches => m.insert name batches
    | _, _ => m

def performAll (m : Ledger) (ops : List Operation) : Ledger := ops.foldl perform m

def run (ops : List Operation) : Ledger := initial.performAll ops

/-- The records of a branch: its batches, one after the other. -/
def records (m : Ledger) (branch : String) : Except HistoryError (List Record) :=
  match m.find? branch with
  | some batches => .ok batches.flatten
  | none => .error (.unknownBranch branch)

variable {m : Ledger} {branch message name existing : String} {records : List Record} {batches : List (List Record)}

theorem perform_commit_of_find? (hm : m.find? branch = some batches) :
    m.perform (.commit branch message records) = m.insert branch (batches ++ [records]) := by
  rw [perform, hm]

theorem perform_commit_of_unknown (hm : m.find? branch = none) : m.perform (.commit branch message records) = m := by
  rw [perform, hm]

theorem perform_branchFrom_of_taken (hname : m.find? name = some batches) :
    m.perform (.branchFrom name existing) = m := by
  simp only [perform, hname]

theorem perform_branchFrom_of_unknown (hm : m.find? existing = none) : m.perform (.branchFrom name existing) = m := by
  cases hname : m.find? name <;> simp only [perform, hname, hm]

theorem perform_branchFrom (hname : m.find? name = none) (hm : m.find? existing = some batches) :
    m.perform (.branchFrom name existing) = m.insert name batches := by
  simp only [perform, hname, hm]

end Ledger

namespace History

/-- The chain of a branch brings batches, the newest first. -/
def Carries (commits : NameMap Commit) (b : Branch) (batches : List (List Record)) : Prop :=
  ∃ l, IsChain commits b.head l ∧ l.map (·.records) = batches.reverse

/-- **A history refines a ledger**: both have the same branches, with the same batches. -/
def Refines (h : History) (m : Ledger) : Prop := h.branches.Related (fun _ => Carries h.commits) m

variable {h h' : History} {m : Ledger} {o : Operation} {ops : List Operation} {branch message : String} {b : Branch}
  {records : List Record} {batches : List (List Record)} {past : List Commit} {d? : Option Commit} {e : HistoryError}

theorem Carries.keep (ho : Outcome h o d? h') (hs : Sound h past) (hd : DistinctIds (past ++ d?.toList))
    (hc : Carries h.commits b batches) : Carries h'.commits b batches := by
  obtain ⟨l, hl, hbatches⟩ := hc
  refine ⟨l.map (Commit.relabel d?.toList), ho.isChain hs hd hl, ?_⟩
  -- a new message leaves the records
  rw [List.map_map]
  exact hbatches

/-- A commit stored for its branch, whether or not it is stored already, adds its batch. -/
theorem Carries.next (hs : Sound h past) (hb : h.branches.find? branch = some b)
    (hd : DistinctIds (past ++ [b.next message records])) (hc : Carries h.commits b batches) :
    Carries (h.extend branch b (b.next message records)).commits { b with head := some (b.next message records).id }
      (batches ++ [records]) := by
  obtain ⟨l, hl, hbatches⟩ := hc
  refine ⟨b.next message records :: l, hs.isChain_next hb hd hl, ?_⟩
  rw [List.map_cons, hbatches, List.reverse_append]
  rfl

/-! ## Both sides perform an operation alike -/

/-- The branches that an operation does not name keep their batches. -/
theorem Refines.keep (ho : Outcome h o d? h') (hs : Sound h past) (hd : DistinctIds (past ++ d?.toList))
    (hr : Refines h m) : h.branches.Related (fun _ => Carries h'.commits) m :=
  NameMap.Related.mono hr fun _ _ _ _ hc => hc.keep ho hs hd

/-- **An operation takes a history that refines a ledger to one that refines the ledger after it.** -/
theorem Refines.perform (hs : Sound h past) (hd : DistinctIds (past ++ (h.stores? o).toList)) (hr : Refines h m) :
    Refines (h.perform o) (m.perform o) := by
  cases o with
  | commit branch message records =>
    cases hb : h.branches.find? branch with
    | none =>
      rw [History.perform, commit, History.branch, hb, Ledger.perform_commit_of_unknown (hr.find?_eq_none_iff.1 hb)]
      exact hr
    | some b =>
      obtain ⟨batches, hm, hc⟩ := hr.exists_right hb
      rw [stores?, hb] at hd
      rw [perform_commit hb, Ledger.perform_commit_of_find? hm]
      exact NameMap.Related.insert (hc.next hs hb hd) fun n _ => hr.keep (.committed hb) hs hd n
  | branchFrom name existing =>
    rw [History.perform, branchFrom, NameMap.contains, History.branch]
    cases hname : h.branches.find? name with
    | some taken =>
      obtain ⟨batches, hm, -⟩ := hr.exists_right hname
      rw [Ledger.perform_branchFrom_of_taken hm]
      exact hr
    | none =>
      cases hb : h.branches.find? existing with
      | none =>
        rw [Ledger.perform_branchFrom_of_unknown (hr.find?_eq_none_iff.1 hb)]
        exact hr
      | some b =>
        obtain ⟨batches, hm, hc⟩ := hr.exists_right hb
        rw [Ledger.perform_branchFrom (hr.find?_eq_none_iff.1 hname) hm]
        exact NameMap.Related.insert hc fun n _ => hr n

theorem Refines.performAll : ∀ {ops : List Operation} {h : History} {m : Ledger} {past : List Commit}, Refines h m →
    Sound h past → DistinctIds (past ++ h.stores ops) → Refines (h.performAll ops) (m.performAll ops)
  | [], _, _, _, hr, _, _ => hr
  | o :: ops, h, m, past, hr, hs, hd => by
    rw [stores, ← List.append_assoc] at hd
    have hstep : Refines (h.perform o) (m.perform o) := hr.perform hs hd.of_append
    have hsound : Sound (h.perform o) (past ++ (h.stores? o).toList) := (outcome_perform h o).sound hs hd.of_append
    exact hstep.performAll hsound hd

end History

end DeployInventory
