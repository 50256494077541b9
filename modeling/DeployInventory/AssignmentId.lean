import DeployInventory.Number.Digits
import DeployInventory.Number.Power
import DeployInventory.Text.Blank
import DeployInventory.Text.DecimalDigit
import DeployInventory.Text.Split
/-!
# AssignmentId — dotted ids of variable assignments

An id is a non-empty list of 64-bit numbers, written with dots between them. Ids are ordered number by number; of two
ids one of which continues the other the shorter comes first, so the ids that continue one id lie together.
-/
namespace DeployInventory

/-- **A dotted id** such as `3.1.2`. -/
structure AssignmentId where
  first : UInt64
  rest : List UInt64
deriving DecidableEq, Repr, Inhabited

namespace AssignmentId

/-- The numbers of the id; there is at least one. -/
def components (i : AssignmentId) : List UInt64 := i.first :: i.rest

def root (n : UInt64) : AssignmentId := ⟨n, []⟩

def child (i : AssignmentId) (n : UInt64) : AssignmentId := ⟨i.first, i.rest ++ [n]⟩

/-- Lists of numbers compared number by number; the list that ends first is the smaller. -/
def compareComponents : List UInt64 → List UInt64 → Ordering
  | [], [] => .eq
  | [], _ :: _ => .lt
  | _ :: _, [] => .gt
  | x :: xs, y :: ys => if x < y then .lt else if y < x then .gt else compareComponents xs ys

instance : Ord AssignmentId := ⟨fun i j => compareComponents i.components j.components⟩

instance : LT AssignmentId := ⟨fun i j => compare i j = .lt⟩

instance (i j : AssignmentId) : Decidable (i < j) := inferInstanceAs (Decidable (compare i j = .lt))

/-- The characters of a list of numbers, dots between them. -/
def dotted : List UInt64 → List Char
  | [] => []
  | [n] => decimalChars n.toNat
  | n :: rest => decimalChars n.toNat ++ '.' :: dotted rest

/-- **The id as text**: no blanks, no leading zeros. -/
def text (i : AssignmentId) : String := .ofList (dotted i.components)

/-- Why a text is no id. -/
inductive ParseError where
  /-- It is not a sequence of numbers with dots between them. -/
  | malformed (source : String)
  /-- One of the numbers does not fit 64 bits, or has digits of another script than ASCII. -/
  | outOfRange (source : String)
deriving DecidableEq, Repr

def ParseError.message : ParseError → String
  | .malformed source =>
    "Invalid assignment id '" ++ source ++ "': expected dot-separated integers such as '3.1.2'."
  | .outOfRange source => "Invalid assignment id '" ++ source ++ "': component out of range."

/-- Whether a part is a run of at least one decimal digit, of any script. -/
def isDigitRun (part : List Char) : Bool := !part.isEmpty && part.all isDecimalDigit

/-- The number of a part that has ASCII digits only and fits 64 bits. -/
def component? (part : List Char) : Option UInt64 :=
  if part.all Char.isDigit ∧ decimalValue part < twoTo 64 then some (UInt64.ofNat (decimalValue part)) else none

/-- **Reads an id**; white space around it does not count. -/
def parse (source : String) : Except ParseError AssignmentId :=
  let parts := splitAtChar '.' (trimChars source.toList)
  if parts.all isDigitRun then
    match parts.mapM component? with
    | some (n :: rest) => .ok ⟨n, rest⟩
    | _ => .error (.outOfRange source)
  else .error (.malformed source)

end AssignmentId

end DeployInventory
