import DeployInventory.CommandLine.Report
/-!
# CommandLine.Run — the program

Arguments are read first, then the inventory is looked for and loaded, then the command does its work. A command that
fails keeps what it has printed; its failure goes to the other stream.
-/
namespace DeployInventory

/-- **What the program sees of the system.** -/
structure Surroundings where
  /-- The variables of the process. -/
  process : ProcessVariables
  files : FileTree
  workingDirectory : String
  /-- Whether the output goes to a terminal. -/
  terminal : Bool
  /-- The session that a plan without one is opened in. -/
  session : SessionId

namespace Surroundings

/-- Whether a variable of the process is set, and not to zero. -/
def isOn (s : Surroundings) (name : String) : Bool := (s.process.find? name).any (· != "0")

/-- **Whether output is coloured**: where it is forced; else not where it is refused; else on a terminal. -/
def coloured (s : Surroundings) : Bool :=
  s.isOn "CLICOLOR_FORCE" ||
    (!s.process.contains "NO_COLOR" && s.terminal && (!s.process.contains "CLICOLOR" || s.isOn "CLICOLOR"))

def lookup (s : Surroundings) : PathLookup := .ofFiles s.process s.files

/-- The search for the inventory that a path given to the program starts. -/
def search (s : Surroundings) (file : Option String) : Except LocationError Location.Search :=
  Location.search s.lookup file (s.process.find? Location.variableName) s.workingDirectory
    (Location.globalPath s.process).toOption

/-- The inventory that a path given to the program leads to. -/
def load (s : Surroundings) (file : Option String) : Except CommandFailure LoadedInventory := do
  let path ← Report.orFail .location (do (← s.search file).run s.lookup)
  Report.orFail (.load path) (LoadedInventory.ofPath s.files path)

end Surroundings

/-- **What a run of the program comes to.** -/
structure Outcome where
  status : Nat
  output : String := ""
  /-- What goes to the stream for errors. -/
  complaint : String := ""
deriving DecidableEq, Repr

namespace Outcome

def version : String := "0.1.0"

/-- The outcome of a command line that has not its form, or that asks something. -/
def ofFault (fault : ArgumentFault) : Outcome :=
  match fault with
  | .question "version" => { status := 0, output := Report.lines ["strata " ++ version] }
  | .question _ => { status := 0, output := fault.message Invocation.form }
  | _ => { status := 2, complaint := Report.lines [fault.message Invocation.form] }

def ofReport (coloured : Bool) (r : Report) : Outcome :=
  match r.failure with
  | none => { status := 0, output := r.output }
  | some failure =>
    { status := 1, output := r.output
      complaint := Report.lines ["", Paint.boldRed.apply coloured "Error" ++ ": " ++ failure.message] }

end Outcome

namespace Invocation

/-- The report of a command that is called by its name. -/
def report (s : Surroundings) (i : Invocation) (name : String) : Except CommandFailure Report := do
  match CommandName.ofText? name with
  | none => throw (.unknownCommand name)
  | some n =>
    let command ← Report.orFail (.arguments n) (n.read i.arguments)
    return .ofCommand s.coloured s.session (← s.load i.file) command

/-- What calling the program comes to: its help where no command is named. -/
def outcome (s : Surroundings) (i : Invocation) : Outcome :=
  match i.command with
  | none => .ofFault (.question "help")
  | some name => .ofReport s.coloured (.ofExcept (i.report s name))

end Invocation

/-- **Runs the program** on the texts of its command line. -/
def Outcome.ofArguments (s : Surroundings) (texts : List String) : Outcome :=
  match Invocation.read texts with
  | .ok i => i.outcome s
  | .error fault => .ofFault fault

end DeployInventory
