import DeployInventory.Text.Split
/-!
# CommandLine.Arguments — options and operands on a command line

An option is written `--name`, or `-n` with its letter; one that takes a value has it behind `=`, right behind its
letter, or as the next text. Letters may stand together. Every other text is an operand, as is every text after `--`.
A form that passes the rest on takes unknown options for operands once it has those it names, and reads nothing behind
the first operand after them.
-/
namespace DeployInventory

/-- What an option is for. -/
inductive OptionRole where
  /-- It is given or not. -/
  | flag
  /-- It has a value. -/
  | value
  /-- It asks something, which is answered in place of anything else. -/
  | question
deriving DecidableEq, Repr

/-- An option that a command line may hold. -/
structure OptionForm where
  name : String
  letter : Option Char := none
  role : OptionRole := .flag
  /-- What it does, in a few words. -/
  purpose : String
deriving DecidableEq, Repr

/-- An operand that a command line may hold. -/
structure OperandForm where
  name : String
  /-- What it stands for, in a few words. -/
  purpose : String
deriving DecidableEq, Repr

/-- **What a command line may hold.** -/
structure ArgumentForm where
  /-- What the command line is for. -/
  purpose : String
  /-- The words before the options. -/
  program : String
  options : List OptionForm
  operands : List OperandForm := []
  /-- Whether more operands may follow. -/
  passesRest : Bool := false
deriving Repr

/-- Why a command line has not the form that it should have; or that it asks something. -/
inductive ArgumentFault where
  /-- An option asks something. -/
  | question (option : String)
  /-- No option has the name or letter. -/
  | unknownOption (text : String)
  /-- An option stands without its value. -/
  | missingValue (option : String)
  /-- An option that takes no value has one. -/
  | unwantedValue (option value : String)
  /-- An option is given twice. -/
  | repeated (option : String)
  /-- There are more operands than have names. -/
  | excess (operand : String)
  /-- A required option or operand is absent. -/
  | missing (name : String)
  /-- The value of an operand is none that it can have. -/
  | invalid (operand value reason : String)
deriving DecidableEq, Repr

/-- **What a command line holds.** -/
structure Arguments where
  /-- The names of the options given, those with a value and the others, each with its value. -/
  options : List (String × Option String) := []
  /-- The operands that have names, in order. -/
  operands : List String := []
  /-- The operands after them. -/
  rest : List String := []
deriving DecidableEq, Repr

/-- A text of a command line. -/
inductive ArgumentToken where
  /-- Two hyphens: all that follows is operands. -/
  | escape
  | long (name : String) (value : Option String)
  | letters (cs : List Char)
  | operand
deriving DecidableEq, Repr

namespace ArgumentToken

/-- The name of an option and its value, if there is one. -/
def longOf (cs : List Char) : ArgumentToken :=
  match cs.dropWhile (· != '=') with
  | [] => .long (.ofList cs) none
  | _ :: value => .long (.ofList (cs.takeWhile (· != '='))) (some (.ofList value))

def ofText (s : String) : ArgumentToken :=
  match s.toList with
  | ['-', '-'] => .escape
  | '-' :: '-' :: cs => longOf cs
  | '-' :: c :: cs => .letters (c :: cs)
  | _ => .operand

end ArgumentToken

namespace Arguments

def has (a : Arguments) (option : String) : Bool := a.options.any (·.1 == option)

def value? (a : Arguments) (option : String) : Option String := (a.options.find? (·.1 == option)).bind Prod.snd

/-- Gives an option, which may not be there already. -/
def give (a : Arguments) (option : String) (value : Option String) : Except ArgumentFault Arguments :=
  if a.has option then .error (.repeated option) else .ok { a with options := a.options ++ [(option, value)] }

/-- The operand at a position, which must be there. -/
def operand (a : Arguments) (form : ArgumentForm) (index : Nat) : Except ArgumentFault String :=
  match a.operands[index]? with
  | some s => .ok s
  | none => .error (.missing ((form.operands[index]?.map (·.name)).getD ""))

/-- The value of an option, which must be there. -/
def required (a : Arguments) (option : String) : Except ArgumentFault String :=
  match a.value? option with
  | some s => .ok s
  | none => .error (.missing ("--" ++ option))

end Arguments

namespace ArgumentForm

def byName? (form : ArgumentForm) (name : String) : Option OptionForm := form.options.find? (·.name == name)

def byLetter? (form : ArgumentForm) (c : Char) : Option OptionForm := form.options.find? (·.letter == some c)

def isComplete (form : ArgumentForm) (a : Arguments) : Bool := form.operands.length ≤ a.operands.length

/-- What a text is on a command line: unknown options are operands where the rest is passed on. -/
def classify (form : ArgumentForm) (a : Arguments) (s : String) : ArgumentToken :=
  let takesAll := form.passesRest && form.isComplete a
  match ArgumentToken.ofText s with
  | .long name value => if takesAll && (form.byName? name).isNone then .operand else .long name value
  | .letters cs => if takesAll && cs.any fun c => (form.byLetter? c).isNone then .operand else .letters cs
  | token => token

/-- Takes texts as operands, whatever they look like. -/
def takeOperands (form : ArgumentForm) (a : Arguments) (texts : List String) : Except ArgumentFault Arguments :=
  let count := form.operands.length - a.operands.length
  match texts.drop count, form.passesRest with
  | s :: _, false => .error (.excess s)
  | rest, _ => .ok { a with operands := a.operands ++ texts.take count, rest }

/-- Reads letters that stand together, up to an option that waits for its value. -/
def readLetters (form : ArgumentForm) (a : Arguments) : List Char → Except ArgumentFault (Arguments × Option OptionForm)
  | [] => .ok (a, none)
  | c :: cs =>
    match form.byLetter? c with
    | none => .error (.unknownOption (.ofList ['-', c]))
    | some o =>
      match o.role, cs with
      | .question, _ => .error (.question o.name)
      | .flag, cs => do readLetters form (← a.give o.name none) cs
      | .value, [] => .ok (a, some o)
      | .value, '=' :: value => (a.give o.name (some (.ofList value))).map (·, none)
      | .value, value => (a.give o.name (some (.ofList value))).map (·, none)

/-- Reads the name of an option with the value behind it; without one it may have to wait for it. -/
def readLong (form : ArgumentForm) (a : Arguments) (name : String) (value : Option String) :
    Except ArgumentFault (Arguments × Option OptionForm) :=
  match form.byName? name with
  | none => .error (.unknownOption ("--" ++ name))
  | some o =>
    match o.role, value with
    | .value, none => .ok (a, some o)
    | .value, some value => (a.give o.name (some value)).map (·, none)
    | _, some value => .error (.unwantedValue o.name value)
    | .question, none => .error (.question o.name)
    | .flag, none => (a.give o.name none).map (·, none)

/-- Takes a text for the value of an option that waits for it. -/
def readValue (form : ArgumentForm) (a : Arguments) (o : OptionForm) (s : String) : Except ArgumentFault Arguments :=
  match form.classify a s with
  | .operand => a.give o.name (some s)
  | _ => .error (.missingValue o.name)

/-- Reads on: `waiting` is an option whose value comes next. -/
def readFrom (form : ArgumentForm) (a : Arguments) (waiting : Option OptionForm) :
    List String → Except ArgumentFault Arguments
  | [] =>
    match waiting with
    | none => .ok a
    | some o => .error (.missingValue o.name)
  | s :: texts =>
    match waiting with
    | some o => do readFrom form (← form.readValue a o s) none texts
    | none =>
      match form.classify a s with
      | .escape => form.takeOperands a texts
      | .long name value => do
        let (a, waiting) ← form.readLong a name value
        readFrom form a waiting texts
      | .letters cs => do
        let (a, waiting) ← form.readLetters a cs
        readFrom form a waiting texts
      | .operand =>
        if form.isComplete a then form.takeOperands a (s :: texts)
        else readFrom form { a with operands := a.operands ++ [s] } none texts

/-- **Reads a command line.** -/
def read (form : ArgumentForm) (texts : List String) : Except ArgumentFault Arguments := form.readFrom {} none texts

end ArgumentForm

end DeployInventory
