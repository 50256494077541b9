import DeployInventory.CommandLine.Run
/-!
# Main — the program on a real system

What a run needs is read first: the variables that may count, and the places where the inventory is looked for, with
all that lies below them. The run itself is `Outcome.ofArguments`.
-/
namespace DeployInventory

namespace Survey

def variablesAmong (names : List String) : IO ProcessVariables :=
  names.foldlM (fun found name => do
    match ← IO.getEnv name with
    | some value => return found.insert name value
    | none => return found) .empty

/-- The names of the variables that may count for a run. -/
def namesFor (file fromProcess : Option String) : List String :=
  ["HOME", "XDG_CONFIG_HOME", Location.variableName, "NO_COLOR", "CLICOLOR", "CLICOLOR_FORCE"] ++
    PathTemplate.namesIn ((file.getD "").toList ++ '/' :: (fromProcess.getD "").toList)

/-- What lies at a path; below a directory the documents alone are read. -/
partial def nodeAt (path : String) : IO FileTree := do
  let place ← IO.FS.realPath path
  if ← place.isDir then
    let entries ← (← place.readDir).toList.mapM fun e => do
      let below := PathName.join path e.fileName
      let isDirectory ← (← IO.FS.realPath below).isDir
      let node ← if isDirectory || LoadedInventory.isDocument below then nodeAt below else pure (.file [])
      return (e.fileName, node)
    return .directory (NameMap.ofList entries).entries
  else return .file (← IO.FS.readBinFile path).toList

/-- Adds what lies at a path to a tree, with the directories that lead to it. -/
def add (tree : FileTree) (path : String) : IO FileTree := do
  let mut tree := tree
  let mut place : List String := []
  for name in PathName.components path do
    if name = ".." then place := place.dropLast
    else if name ≠ "" ∧ name ≠ "." then
      place := place ++ [name]
      let here := "/" ++ "/".intercalate place
      unless tree.contains here do
        match ← (IO.FS.realPath here).toBaseIO with
        | .error _ => return tree
        | .ok real =>
          let node : FileTree := if ← real.isDir then .emptyDirectory else .file []
          tree := .put node place tree
  return .put (← nodeAt ("/" ++ "/".intercalate place)) place tree

end Survey

/-- What the program sees of the system when it is called with the texts of a command line. -/
def Surroundings.survey (texts : List String) : IO Surroundings := do
  let file := (Invocation.read texts).toOption.bind (·.file)
  let process ← Survey.variablesAmong (Survey.namesFor file (← IO.getEnv Location.variableName))
  let random ← IO.getRandomBytes 16
  let unread : Surroundings :=
    { process, files := .emptyDirectory, workingDirectory := (← IO.currentDir).toString
      terminal := ← (← IO.getStdout).isTty
      session := .ofRandom (BitVec.ofNat 128 (random.toList.foldl (fun n b => 256 * n + b.toNat) 0)) }
  match unread.search file with
  | .error _ => return unread
  | .ok search => return { unread with files := ← search.paths.foldlM Survey.add .emptyDirectory }

end DeployInventory

open DeployInventory in
def main (texts : List String) : IO UInt32 := do
  let outcome := Outcome.ofArguments (← Surroundings.survey texts) texts
  IO.print outcome.output
  IO.eprint outcome.complaint
  return UInt32.ofNat outcome.status
