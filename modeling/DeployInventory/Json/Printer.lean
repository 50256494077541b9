import DeployInventory.Json.Basic
import DeployInventory.Number.Digits
import DeployInventory.Number.Shortest
/-!
# Json.Printer — JSON documents as text

Two layouts of one text: `compact` without blanks, and `pretty` with one item to a line, indented by two blanks a
level. Strings escape the quotation mark, the backslash and the characters below U+0020; doubles are their shortest
decimals.
-/
namespace DeployInventory

namespace Decimal

def digitText (d : Decimal) : List Char := decimalChars d.digits

def leadingPower (d : Decimal) : Int := d.digitText.length - 1 + d.exponent

/-- The decimal written with a point, a zero on each side of it where no digit stands. -/
def positional (d : Decimal) : List Char :=
  let ds := d.digitText
  if 0 ≤ d.exponent then ds ++ List.replicate d.exponent.toNat '0' ++ ['.', '0']
  else
    let places := (-d.exponent).toNat
    if places < ds.length then ds.take (ds.length - places) ++ '.' :: ds.drop (ds.length - places)
    else '0' :: '.' :: (List.replicate (places - ds.length) '0' ++ ds)

/-- The decimal written with one digit before the point and a signed power of ten. -/
def scientific (d : Decimal) : List Char :=
  let power := d.leadingPower
  let sign := if power < 0 then '-' else '+'
  let mantissa := match d.digitText with
    | [] => []
    | [c] => [c]
    | c :: rest => c :: '.' :: rest
  mantissa ++ 'e' :: sign :: decimalChars power.natAbs

end Decimal

namespace JsonNumber

/-- Doubles are positional from 1e-5 up to below 1e16, scientific outside; zero keeps its sign. -/
def doubleChars (x : Binary64) : List Char :=
  let d := x.shortest
  let magnitude :=
    if x.isZero || (decide (-5 ≤ d.leadingPower) && decide (d.leadingPower < 16)) then d.positional else d.scientific
  if x.negative then '-' :: magnitude else magnitude

def chars : JsonNumber → List Char
  | .integer n => (toString n).toList
  | .double x => doubleChars x

end JsonNumber

namespace Json

def escaped (c : Char) : List Char :=
  if c = '"' then ['\\', '"']
  else if c = '\\' then ['\\', '\\']
  else if c = '\n' then ['\\', 'n']
  else if c = '\r' then ['\\', 'r']
  else if c = '\t' then ['\\', 't']
  else if c = '\x08' then ['\\', 'b']
  else if c = '\x0c' then ['\\', 'f']
  else if c.toNat < 0x20 then ['\\', 'u', '0', '0', hexDigit (c.toNat / 16), hexDigit c.toNat]
  else [c]

def quoted (s : String) : List Char := '"' :: (s.toList.flatMap escaped ++ ['"'])

mutual

def compactChars : Json → List Char
  | .null => "null".toList
  | .bool true => "true".toList
  | .bool false => "false".toList
  | .number n => n.chars
  | .string s => quoted s
  | .array items => '[' :: (compactItems items ++ [']'])
  | .object fields => '{' :: (compactFields fields ++ ['}'])

/-- The items of an array, commas between them. -/
def compactItems : List Json → List Char
  | [] => []
  | [j] => compactChars j
  | j :: rest => compactChars j ++ ',' :: compactItems rest

/-- The fields of an object, commas between them. -/
def compactFields : List (String × Json) → List Char
  | [] => []
  | [(key, j)] => quoted key ++ ':' :: compactChars j
  | (key, j) :: rest => quoted key ++ ':' :: (compactChars j ++ ',' :: compactFields rest)

end

/-- **The compact text**: no blanks. -/
def compact (j : Json) : String := .ofList (compactChars j)

def lineBreak (level : Nat) : List Char := '\n' :: List.replicate (2 * level) ' '

mutual

/-- The characters of the pretty text, for a document that stands at a level. -/
def prettyChars (level : Nat) : Json → List Char
  | .null => "null".toList
  | .bool true => "true".toList
  | .bool false => "false".toList
  | .number n => n.chars
  | .string s => quoted s
  | .array [] => ['[', ']']
  | .array (j :: rest) => '[' :: (prettyItems (level + 1) (j :: rest) ++ lineBreak level ++ [']'])
  | .object [] => ['{', '}']
  | .object (e :: rest) => '{' :: (prettyFields (level + 1) (e :: rest) ++ lineBreak level ++ ['}'])

/-- The items of an array, each on a line of its own. -/
def prettyItems (level : Nat) : List Json → List Char
  | [] => []
  | [j] => lineBreak level ++ prettyChars level j
  | j :: rest => lineBreak level ++ prettyChars level j ++ ',' :: prettyItems level rest

/-- The fields of an object, each on a line of its own. -/
def prettyFields (level : Nat) : List (String × Json) → List Char
  | [] => []
  | [(key, j)] => lineBreak level ++ quoted key ++ ':' :: ' ' :: prettyChars level j
  | (key, j) :: rest =>
    lineBreak level ++ quoted key ++ ':' :: ' ' :: (prettyChars level j ++ ',' :: prettyFields level rest)

end

/-- **The pretty text**: one item to a line, two blanks a level; empty arrays and objects stay on theirs. -/
def pretty (j : Json) : String := .ofList (prettyChars 0 j)

end Json

end DeployInventory
