import DeployInventory.Files.FileTree
import DeployInventory.PathTemplate
import DeployInventory.Text.Blank
/-!
# Location — where the inventory is

A path given to the program decides, else one given by the process; blank ones do not count. Without either the local
file is looked for and then the user's own. What a template expands to and which paths there are is up to a lookup,
which is that of a process among files when the program runs.
-/
namespace DeployInventory

/-- **Why no inventory is found.** -/
inductive LocationError where
  /-- No directory for configuration is known. -/
  | noConfigDirectory
  /-- A template stands for no path. -/
  | expansion (template cause : String)
  /-- The path that was asked for leads nowhere. -/
  | missing (path : String)
  /-- None of the places searched holds an inventory. -/
  | notFound (searched : List String)
  /-- A path leads somewhere, but not to a place without detours. -/
  | unresolved (path cause : String)
deriving DecidableEq, Repr

def LocationError.message : LocationError → String
  | .noConfigDirectory => "Could not find system config directory."
  | .expansion template cause => "Failed to expand path '" ++ template ++ "': " ++ cause
  | .missing path => "Inventory '" ++ path ++ "' does not exist."
  | .notFound searched => "No inventory found. Searched: " ++ ", ".intercalate searched ++ "."
  | .unresolved path cause => "Could not resolve '" ++ path ++ "': " ++ cause

/-- The wording of an error and, behind it, its cause where that is an error as well. -/
def LocationError.fullMessage : LocationError → String
  | .unresolved path cause => message (.unresolved path cause) ++ ": " ++ cause
  | e => e.message

/-- **How paths are looked up**: what a template expands to, whether a path leads somewhere, and the path without
detours to the same place. Where one of them cannot be told, a text says why. -/
structure PathLookup where
  expand : String → Except String String
  leads : String → Bool
  canonical : String → Except String String

namespace PathLookup

/-- **The lookup of a process among files.** -/
def ofFiles (process : ProcessVariables) (files : FileTree) : PathLookup where
  expand template := (PathTemplate.expand process template).mapError fun name =>
    "error looking key '" ++ name ++ "' up: environment variable not found"
  leads := files.contains
  canonical path := (files.canonical? path).elim (.error FileTree.absence) .ok

/-- The path that a template stands for. -/
def path (lookup : PathLookup) (template : String) : Except LocationError String :=
  (lookup.expand template).mapError (.expansion template)

/-- The place that a path leads to. -/
def place (lookup : PathLookup) (path : String) : Except LocationError String :=
  (lookup.canonical path).mapError (.unresolved path)

end PathLookup

namespace Location

def localName : String := "strata.toml"

def directoryName : String := "strata"

def globalName : String := "inventory.toml"

/-- The name of the variable that may hold a path. -/
def variableName : String := "STRATA_INVENTORY"

def configDirectory? (process : ProcessVariables) : Option String :=
  match (process.find? "XDG_CONFIG_HOME").filter PathName.isAbsolute with
  | some path => some path
  | none => process.home?.map (PathName.join · ".config")

/-- **The program's directory for configuration.** -/
def directory (process : ProcessVariables) : Except LocationError String :=
  match configDirectory? process with
  | some path => .ok (PathName.join path directoryName)
  | none => .error .noConfigDirectory

/-- **The path of the user's own inventory.** -/
def globalPath (process : ProcessVariables) : Except LocationError String :=
  (directory process).map (PathName.join · globalName)

/-- The template that was asked for: the given one, else that of the process; none when it is blank. -/
def requested? (explicit fromProcess : Option String) : Option String :=
  (explicit.or fromProcess).filter fun template => !template.toList.all isBlank

/-- **Where to look for the inventory.** -/
inductive Search where
  /-- At the path that was asked for. -/
  | requested (path : String)
  /-- At the usual paths, in turn. -/
  | usual (paths : List String)
deriving DecidableEq, Repr

namespace Search

/-- The paths of a search, in turn. -/
def paths : Search → List String
  | .requested path => [path]
  | .usual paths => paths

/-- The error where no path of a search leads anywhere. -/
def failure : Search → LocationError
  | .requested path => .missing path
  | .usual paths => .notFound paths

/-- The place of the first path of a search that leads somewhere. -/
def run (lookup : PathLookup) (s : Search) : Except LocationError String :=
  match s.paths.find? lookup.leads with
  | some path => lookup.place path
  | none => .error s.failure

end Search

def search (lookup : PathLookup) (explicit fromProcess : Option String) (workingDirectory : String)
    (global : Option String) : Except LocationError Search :=
  match requested? explicit fromProcess with
  | some template => (lookup.path template).map fun path => .requested (PathName.join workingDirectory path)
  | none => .ok (.usual (PathName.join workingDirectory localName :: global.toList))

/-- **The path of the inventory**, without detours. -/
def locate (lookup : PathLookup) (explicit fromProcess : Option String) (workingDirectory : String)
    (global : Option String) : Except LocationError String := do
  (← search lookup explicit fromProcess workingDirectory global).run lookup

end Location

end DeployInventory
