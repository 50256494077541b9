import DeployInventory.Toml.Value
/-!
# Toml.Scalar — numbers, truth values and date-times from words

Digits may be set apart by single underscores. Decimal numbers have no leading zeros; numbers in base two, eight and
sixteen have a mark for their base and no sign. A float that is too large for a double is told apart from infinity.
-/
namespace DeployInventory

namespace Toml

namespace Scalar

/-- A run of digits, its underscores left out; each of them has to stand between two digits. -/
def digits? (isDigit : Char → Bool) : List Char → Option (List Char)
  | [] => none
  | [c] => if isDigit c then some [c] else none
  | c :: '_' :: rest => if isDigit c then (digits? isDigit rest).map (c :: ·) else none
  | c :: rest => if isDigit c then (digits? isDigit rest).map (c :: ·) else none

def plainDigits? (cs : List Char) : Option (List Char) :=
  match digits? Char.isDigit cs with
  | some ('0' :: _ :: _) => none
  | ds? => ds?

def valueIn (base : Nat) (ds : List Char) : Nat := ds.foldl (fun n c => n * base + (hexValue? c).getD 0) 0

def isDigitIn (base : Nat) (c : Char) : Bool := (hexValue? c).any (· < base)

def marked? (base : Nat) (cs : List Char) : Option Int := (digits? (isDigitIn base) cs).map fun ds => valueIn base ds

def integer? : List Char → Option Int
  | '0' :: 'x' :: cs => marked? 16 cs
  | '0' :: 'o' :: cs => marked? 8 cs
  | '0' :: 'b' :: cs => marked? 2 cs
  | '+' :: cs => (plainDigits? cs).map fun ds => decimalValue ds
  | '-' :: cs => (plainDigits? cs).map fun ds => -(decimalValue ds : Int)
  | cs => (plainDigits? cs).map fun ds => decimalValue ds

def isRunPart (c : Char) : Bool := c.isDigit || c == '_'

/-- An exponent: its letter, an optional sign, digits. No text is the exponent zero. -/
def exponent? : List Char → Option Int
  | [] => some 0
  | e :: rest =>
    if e = 'e' ∨ e = 'E' then
      match rest with
      | '+' :: cs => (digits? Char.isDigit cs).map fun ds => decimalValue ds
      | '-' :: cs => (digits? Char.isDigit cs).map fun ds => -(decimalValue ds : Int)
      | cs => (digits? Char.isDigit cs).map fun ds => decimalValue ds
    else none

/-- The value of a double that decimal digits have given. -/
def finite (isNegative : Bool) (x : Binary64) : Value := if x.isFinite then .float x else .overflow isNegative

/-- A float without its sign: digits, then a fraction, an exponent or both; or one of the two names. -/
def magnitude? (isNegative : Bool) (cs : List Char) : Option Value :=
  if cs = ['i', 'n', 'f'] then some (.float (.infinity isNegative))
  else if cs = ['n', 'a', 'n'] then some (.float .nan)
  else do
    let whole ← plainDigits? (cs.takeWhile isRunPart)
    match cs.dropWhile isRunPart with
    | [] => none
    | '.' :: after => do
      let part ← digits? Char.isDigit (after.takeWhile isRunPart)
      let e ← exponent? (after.dropWhile isRunPart)
      return finite isNegative (.ofDecimal isNegative (decimalValue (whole ++ part)) (e - part.length))
    | after => do return finite isNegative (.ofDecimal isNegative (decimalValue whole) (← exponent? after))

def float? : List Char → Option Value
  | '+' :: cs => magnitude? false cs
  | '-' :: cs => magnitude? true cs
  | cs => magnitude? false cs

/-- **The value that a word stands for.** -/
def ofWord? (cs : List Char) : Option Value :=
  if cs = ['t', 'r', 'u', 'e'] then some (.boolean true)
  else if cs = ['f', 'a', 'l', 's', 'e'] then some (.boolean false)
  else match integer? cs, float? cs, DateTime.parse? cs with
    | some n, _, _ => some (.integer n)
    | none, some v, _ => some v
    | none, none, some d => some (.dateTime d)
    | none, none, none => none

end Scalar

end Toml

end DeployInventory
