import DeployInventory.NameMap
import DeployInventory.Text.WordCharacter
/-!
# PathTemplate — paths with names of variables in them

`$NAME` and `${NAME}` stand for the value of a variable of the process, `${NAME:-text}` for the text where there is no
such variable, `$$` for one dollar sign; other dollar signs stand for themselves. What a variable holds is not expanded
again. A tilde at the start of the template, alone or before a slash, stands for the home directory.
-/
namespace DeployInventory

/-- **The variables of the process.** -/
abbrev ProcessVariables := NameMap String

namespace ProcessVariables

def home? (process : ProcessVariables) : Option String :=
  (process.find? "HOME").filter fun path => !path.isEmpty

end ProcessVariables

namespace PathTemplate

/-- Whether a character belongs to the name of a variable. -/
def isNamePart (c : Char) : Bool := isLetterOrNumber c || c == '_'

/-- A name and the text after the first `:-`, where there is a name before it. -/
def splitDefault? : List Char → Option (List Char × List Char)
  | ':' :: '-' :: _ => none
  | cs => go [] cs
where
  /-- Looks for the mark; the characters before it come the last one first. -/
  go (before : List Char) : List Char → Option (List Char × List Char)
  | [] => none
  | ':' :: '-' :: rest => some (before.reverse, rest)
  | c :: rest => go (c :: before) rest

/-- The value of a variable; the error is its name. -/
def lookup (process : ProcessVariables) (name : List Char) : Except String (List Char) :=
  match process.find? (.ofList name) with
  | some value => .ok value.toList
  | none => .error (.ofList name)

def braced (process : ProcessVariables) (body : List Char) : Except String (List Char) :=
  match splitDefault? body with
  | some (name, default) => .ok (((lookup process name).toOption).getD default)
  | none => lookup process body

/-- A template with its variables expanded; the error is the name of a variable that the process does not have. -/
def expandVariables (process : ProcessVariables) (s : List Char) : Except String (List Char) :=
  match s with
  | [] => .ok []
  | '$' :: '{' :: rest =>
    match h : rest.dropWhile (· != '}') with
    | [] => (expandVariables process rest).map fun cs => '$' :: '{' :: cs
    | _ :: after => do
      have : after.length < rest.length := by
        have := (List.dropWhile_suffix (· != '}') (l := rest)).length_le
        rw [h, List.length_cons] at this
        omega
      let value ← braced process (rest.takeWhile (· != '}'))
      return value ++ (← expandVariables process after)
  | '$' :: '$' :: rest => (expandVariables process rest).map ('$' :: ·)
  | '$' :: c :: rest =>
    if isNamePart c then do
      have := (List.dropWhile_suffix isNamePart (l := rest)).length_le
      let value ← lookup process (c :: rest.takeWhile isNamePart)
      return value ++ (← expandVariables process (rest.dropWhile isNamePart))
    else (expandVariables process (c :: rest)).map ('$' :: ·)
  | c :: rest => (expandVariables process rest).map (c :: ·)
termination_by s.length
decreasing_by
  all_goals simp_all only [List.length_cons]
  all_goals omega

def namesIn : List Char → List String
  | [] => []
  | '$' :: '{' :: rest =>
    let body := rest.takeWhile (· != '}')
    .ofList (((splitDefault? body).map Prod.fst).getD body) :: namesIn rest
  | '$' :: rest => .ofList (rest.takeWhile isNamePart) :: namesIn rest
  | _ :: rest => namesIn rest

/-- A path with a tilde at its start expanded, where a home directory is known. -/
def expandTilde (home : Option String) : List Char → List Char
  | ['~'] => (home.map String.toList).getD ['~']
  | '~' :: '/' :: rest => (home.map String.toList).getD ['~'] ++ '/' :: rest
  | cs => cs

/-- **The path that a template stands for.** The error is the name of a variable that the process does not have. -/
def expand (process : ProcessVariables) (template : String) : Except String String :=
  (expandVariables process template.toList).map fun cs =>
    .ofList (if template.toList.head? = some '~' then expandTilde process.home? cs else cs)

end PathTemplate

end DeployInventory
