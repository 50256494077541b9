import DeployInventory.Files.PathName
import DeployInventory.NameMap
/-!
# Files.FileTree — directories and files

A tree holds everything below the root directory. A path is followed component by component: dots stay, two dots lead
back to the directory above, and every component but the last has to name a directory, as has the last one when a slash
follows it.
-/
namespace DeployInventory

/-- **A file with its bytes, or a directory with its entries by name.** -/
inductive FileTree where
  | file (content : List UInt8)
  | directory (entries : List (String × FileTree))
deriving Inhabited

namespace FileTree

def emptyDirectory : FileTree := directory []

def isDirectory : FileTree → Bool
  | directory _ => true
  | file _ => false

def entry? (name : String) : FileTree → Option FileTree
  | directory entries => NameMap.valueOf? name entries
  | file _ => none

/-- The entries of a node; a file has none. -/
def entriesOf : FileTree → List (String × FileTree)
  | directory entries => entries
  | file _ => []

/-- Puts a node in the place that components lead to; missing directories are made on the way. -/
def put (node : FileTree) : List String → FileTree → FileTree
  | [], _ => node
  | name :: rest, tree =>
    let below := put node rest ((tree.entry? name).getD emptyDirectory)
    directory (NameMap.insertEntry name below tree.entriesOf)

/-- A place in a tree: the components that lead to it, the last first, each with its node. -/
abbrev Trail := List (String × FileTree)

def atTrail (root : FileTree) : Trail → FileTree
  | [] => root
  | (_, node) :: _ => node

def follow (root : FileTree) (trail : Trail) : List String → Option Trail
  | [] => some trail
  | name :: rest =>
    let here := root.atTrail trail
    if !here.isDirectory then none
    else if name = "" ∨ name = "." then follow root trail rest
    else if name = ".." then follow root trail.tail rest
    else match here.entry? name with
      | none => none
      | some node => follow root ((name, node) :: trail) rest

def trail? (root : FileTree) (path : String) : Option Trail :=
  if PathName.isAbsolute path then follow root [] (PathName.components path) else none

def node? (root : FileTree) (path : String) : Option FileTree := (root.trail? path).map root.atTrail

/-- **Whether a path leads somewhere.** -/
def contains (root : FileTree) (path : String) : Bool := (root.trail? path).isSome

/-- What is said of a path that leads nowhere. -/
def absence : String := "No such file or directory (os error 2)"

/-- **The path without detours** to the place that a path leads to. -/
def canonical? (root : FileTree) (path : String) : Option String :=
  (root.trail? path).map fun trail => "/" ++ "/".intercalate (trail.reverse.map Prod.fst)

mutual

/-- The files below a node, each with its path, in the order of their components. -/
def filesBelow (path : String) : FileTree → List (String × List UInt8)
  | file content => [(path, content)]
  | directory entries => filesOfEntries path entries

def filesOfEntries (path : String) : List (String × FileTree) → List (String × List UInt8)
  | [] => []
  | (name, node) :: rest => filesBelow (PathName.join path name) node ++ filesOfEntries path rest

end

end FileTree

end DeployInventory
