import DeployInventory.Digest.Blake3
import DeployInventory.Inventory.Basic
import DeployInventory.Record.Wire
import DeployInventory.Unmet
/-!
# History — versions of the record stream

A commit holds the records that it adds to its parent, under an id computed from the parent's id and the records. A
branch is a name for a commit, its head; what a branch holds is the chain from its head through the parents.
-/
namespace DeployInventory

/-- The id of a commit. -/
abbrev CommitId := String

/-- **Records added to those of a parent.** -/
structure Commit where
  id : CommitId
  /-- The commit before this one; none for the first. -/
  parent : Option CommitId
  message : String
  records : List Record
deriving Repr

/-- **A name for a commit**; without one the branch is empty. -/
structure Branch where
  name : String
  head : Option CommitId
deriving DecidableEq, Repr

/-- **Commits by their ids, and the branches that lead to them.** -/
structure History where
  commits : NameMap Commit
  branches : NameMap Branch

namespace CommitId

/-- The text whose hash makes an id: the parent's id, a line break, the records as an array. -/
def content (parent : Option CommitId) (records : List Record) : String :=
  parent.getD "" ++ "\n" ++ (Record.streamToJson records).compact

def hexByte (b : UInt8) : List Char := [hexDigit (b.toNat / 16), hexDigit b.toNat]

def size : Nat := 16

/-- **The id of a commit**: the first bytes of the hash of its content, in hexadecimal digits. -/
def of (parent : Option CommitId) (records : List Record) : CommitId :=
  .ofList (((Blake3.digest (content parent records).toUTF8.toList).take size).flatMap hexByte)

end CommitId

/-- Why a branch does not give what is asked for. -/
inductive HistoryError where
  /-- No branch has the name. -/
  | unknownBranch (name : String)
  /-- A branch has the name already. -/
  | branchExists (name : String)
  /-- The chain of a branch leads to an id without a commit. -/
  | brokenChain (branch : String) (missing : CommitId)
  /-- No error that anybody is told: the walk along the parents comes back to where it was, goes on for ever, and so has
  no answer. -/
  | noAnswer
deriving DecidableEq, Repr

/-- The wording of an error; there is none without an answer. -/
def HistoryError.message? : HistoryError → Option String
  | .unknownBranch name => some ("Unknown branch '" ++ name ++ "'.")
  | .branchExists name => some ("Branch '" ++ name ++ "' already exists.")
  | .brokenChain branch missing =>
    some ("Commit '" ++ missing ++ "' reachable from branch '" ++ branch ++ "' is missing from the history.")
  | .noAnswer => none

namespace History

/-- The name of the branch that every history starts with. -/
def defaultBranch : String := "main"

/-- **The history without commits**: one branch, and it is empty. -/
def initial : History := ⟨.empty, .ofList [(defaultBranch, ⟨defaultBranch, none⟩)]⟩

def branch (h : History) (name : String) : Except HistoryError Branch :=
  match h.branches.find? name with
  | some b => .ok b
  | none => .error (.unknownBranch name)

/-- **Adds a commit to a branch**: its head becomes the new commit, whose parent is the former head. -/
def commit (h : History) (branch message : String) (records : List Record) :
    Except HistoryError (History × CommitId) := do
  let b ← h.branch branch
  let id := CommitId.of b.head records
  return (⟨h.commits.insert id ⟨id, b.head, message, records⟩,
    h.branches.insert branch { b with head := some id }⟩, id)

/-- The commits from an id on, through the parents; `met` are the ids met before. To come to one of them again is to
have no answer. -/
def chain (commits : NameMap Commit) (branch : String) (met : List CommitId) :
    Option CommitId → Except HistoryError (List Commit)
  | none => .ok []
  | some id =>
    if hm : id ∈ met then .error .noAnswer
    else match hc : commits.find? id with
      | none => .error (.brokenChain branch id)
      | some c =>
        have _fewer : (unmet commits.names (id :: met)).length < (unmet commits.names met).length :=
          unmet_cons_lt (NameMap.mem_names.2 ⟨c, hc⟩) hm
        (chain commits branch (id :: met) c.parent).map (c :: ·)
termination_by (unmet commits.names met).length

/-- **The commits of a branch**, its head first. -/
def log (h : History) (branch : String) : Except HistoryError (List Commit) := do
  chain h.commits branch [] (← h.branch branch).head

/-- **The records of a branch**, the oldest first. -/
def records (h : History) (branch : String) : Except HistoryError (List Record) :=
  (h.log branch).map fun l => l.reverse.flatMap (·.records)

/-- **The inventory of a branch.** -/
def snapshot (h : History) (branch : String) : Except HistoryError Inventory :=
  (h.records branch).map .ofRecords

/-- **A new branch with the head of an existing one.** -/
def branchFrom (h : History) (name existing : String) : Except HistoryError History :=
  if h.branches.contains name then .error (.branchExists name)
  else (h.branch existing).map fun b => { h with branches := h.branches.insert name ⟨name, b.head⟩ }

end History

end DeployInventory
