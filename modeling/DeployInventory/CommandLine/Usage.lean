import DeployInventory.CommandLine.Arguments
import DeployInventory.Text.Column
/-!
# CommandLine.Usage — how a command line is written

The help of a form is made from the purposes of its options and operands.
-/
namespace DeployInventory

namespace OptionForm

/-- The value of an option as it stands in a help text. -/
def valueMark (o : OptionForm) : String := if o.role = .value then " <" ++ o.name.toUpper ++ ">" else ""

def mark (o : OptionForm) : String :=
  match o.letter with
  | some c => "-" ++ c.toString ++ ", --" ++ o.name ++ o.valueMark
  | none => "    --" ++ o.name ++ o.valueMark

end OptionForm

namespace ArgumentForm

def operandMarks (form : ArgumentForm) : List String :=
  if form.passesRest then form.operands.map (fun o => " [" ++ o.name ++ "]") ++ [" [ARGS]..."]
  else form.operands.map fun o => " <" ++ o.name ++ ">"

/-- **The usage line.** -/
def usage (form : ArgumentForm) : String :=
  "Usage: " ++ form.program ++ " [OPTIONS]" ++ "".intercalate form.operandMarks

def table (title : String) (lines : List (String × String)) : String :=
  let width := (lines.map (·.1.length)).foldl max 0
  let line (l : String × String) := "  " ++ .ofList (leftAligned width l.1.toList) ++ "  " ++ l.2 ++ "\n"
  if lines.isEmpty then "" else "\n" ++ title ++ "\n" ++ "".intercalate (lines.map line)

/-- **The help text.** -/
def help (form : ArgumentForm) : String :=
  form.purpose ++ "\n\n" ++ form.usage ++ "\n" ++
    table "Arguments:" (form.operands.map fun o => (o.name, o.purpose)) ++
    table "Options:" (form.options.map fun o => (o.mark, o.purpose))

end ArgumentForm

namespace ArgumentFault

/-- What is wrong, in one sentence. -/
def cause : ArgumentFault → String
  | .question option => "'--" ++ option ++ "' is not a command"
  | .unknownOption text => "unexpected argument '" ++ text ++ "' found"
  | .missingValue option => "a value is required for '--" ++ option ++ "' but none was supplied"
  | .unwantedValue option value => "unexpected value '" ++ value ++ "' for '--" ++ option ++ "' found"
  | .repeated option => "the argument '--" ++ option ++ "' cannot be used multiple times"
  | .excess operand => "unexpected argument '" ++ operand ++ "' found"
  | .missing name => "the required argument '" ++ name ++ "' was not provided"
  | .invalid operand value reason => "invalid value '" ++ value ++ "' for '" ++ operand ++ "': " ++ reason

/-- **The wording of a fault**: the help where it was asked for. -/
def message (form : ArgumentForm) : ArgumentFault → String
  | .question _ => form.help
  | fault => "error: " ++ fault.cause ++ "\n\n" ++ form.usage ++ "\n\nFor more information, try '--help'."

end ArgumentFault

end DeployInventory
