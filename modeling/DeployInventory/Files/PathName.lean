import DeployInventory.Text.Split
/-!
# Files.PathName — names of files as texts

A path is a text whose components are set apart by slashes; one that starts with a slash is absolute.
-/
namespace DeployInventory

namespace PathName

def isAbsolute (path : String) : Bool := path.toList.head? == some '/'

/-- **A path as seen from a directory**: itself when it is absolute. -/
def join (directory path : String) : String :=
  if isAbsolute path then path
  else if directory.isEmpty ∨ directory.toList.getLast? = some '/' then directory ++ path
  else directory ++ "/" ++ path

/-- The components of a path, empty ones and dots included. -/
def components (path : String) : List String := (splitAtChar '/' path.toList).map .ofList

/-- **The extension of a file's name**: what follows its last dot, unless the name starts there. -/
def extension? (name : String) : Option String :=
  match (splitAtChar '.' name.toList).reverse with
  | [] | [_] => none
  | [_, []] => none
  | last :: _ => some (.ofList last)

end PathName

end DeployInventory
