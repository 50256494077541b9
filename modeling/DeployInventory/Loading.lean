import DeployInventory.Document.Statement
import DeployInventory.Files.FileTree
import DeployInventory.Inventory.Basic
/-!
# Loading — inventories from files

An inventory is one document, or all documents below a directory in the order of their paths. Several documents are
numbered from one on, so that the ids of a later one's assignments are larger than those of an earlier one's.
-/
namespace DeployInventory

/-- **What one or more documents declare.** -/
structure LoadedInventory where
  records : List Record
  plans : List DeployPlan

namespace LoadedInventory

def empty : LoadedInventory := ⟨[], []⟩

/-- What two of them declare together, the first one first. -/
def append (l m : LoadedInventory) : LoadedInventory := ⟨l.records ++ m.records, l.plans ++ m.plans⟩

def inventory (l : LoadedInventory) : Inventory := .ofRecords l.records

def plan? (l : LoadedInventory) (name : String) : Option DeployPlan := l.plans.find? (·.name == name)

end LoadedInventory

/-- Why a file cannot be read. -/
inductive ReadFault where
  | absent
  /-- Its bytes are not those of a text. -/
  | notText
deriving DecidableEq, Repr

def ReadFault.message : ReadFault → String
  | absent => FileTree.absence
  | notText => "stream did not contain valid UTF-8"

/-- **Why an inventory cannot be loaded.** -/
inductive LoadError where
  /-- A file cannot be read. -/
  | unreadable (path : String) (fault : ReadFault)
  /-- A file is no inventory document. -/
  | malformed (path : String)
  /-- A directory has no document below it. -/
  | emptyDirectory (path : String)
  /-- A document has a fault. -/
  | document (cause : DocumentError)
deriving DecidableEq, Repr

def LoadError.message : LoadError → String
  | unreadable path fault => "Failed to read '" ++ path ++ "': " ++ fault.message
  | malformed path => "Failed to parse '" ++ path ++ "': TOML parse error"
  | emptyDirectory path => "No inventory files found under '" ++ path ++ "'."
  | document cause => cause.message

/-- The wording of a load error and, behind it, that of the fault of the file. -/
def LoadError.fullMessage : LoadError → String
  | unreadable path fault => message (.unreadable path fault) ++ ": " ++ fault.message
  | malformed path => message (.malformed path) ++ ": TOML parse error"
  | cause => cause.message

namespace LoadedInventory

/-- **What a document declares.** The path is its name in messages. -/
def ofDocument (source path : String) (file : Option UInt64) : Except LoadError LoadedInventory :=
  match Document.parse? source with
  | none => .error (.malformed path)
  | some d =>
    match d.records file with
    | .error cause => .error (.document cause)
    | .ok records => .ok ⟨records, d.plans⟩

def textOf? (content : List UInt8) : Option String := String.fromUTF8? ⟨content.toArray⟩

def ofFile (path : String) (content : List UInt8) (file : Option UInt64) : Except LoadError LoadedInventory :=
  match textOf? content with
  | none => .error (.unreadable path .notText)
  | some source => ofDocument source path file

/-- What several files declare, numbered from `number` on. -/
def ofFiles (number : Nat) : List (String × List UInt8) → Except LoadError LoadedInventory
  | [] => .ok empty
  | (path, content) :: rest => do
    let first ← ofFile path content (some (UInt64.ofNat number))
    return first.append (← ofFiles (number + 1) rest)

def documentExtension : String := "toml"

def isDocument (path : String) : Bool :=
  ((PathName.components path).getLast?.bind PathName.extension?) == some documentExtension

/-- The documents below a directory, in the order of their paths. -/
def documentsBelow (path : String) (node : FileTree) : List (String × List UInt8) :=
  (node.filesBelow path).filter fun f => isDocument f.1

/-- **What the file at a path declares, or all documents below a directory.** -/
def ofPath (files : FileTree) (path : String) : Except LoadError LoadedInventory :=
  match files.node? path with
  | none => .error (.unreadable path .absent)
  | some (.file content) => ofFile path content none
  | some (.directory entries) =>
    match documentsBelow path (.directory entries) with
    | [] => .error (.emptyDirectory path)
    | [(file, content)] => ofFile file content none
    | several => ofFiles 1 several

end LoadedInventory

end DeployInventory
