import DeployInventory.Text.Blank
import DeployInventory.Text.CaseFold
import DeployInventory.Text.WordCharacter
/-!
# Pattern.CharSet — sets of characters in search patterns

A set is a list of ranges in ascending order, with a character missing between any two, so sets with the same members
are equal. Ranges hold places: a place counts the characters before one, which leaves out the code points that are no
characters.
-/
namespace DeployInventory

/-- **A set of characters**: the first and last places of its ranges. -/
structure CharSet where
  ranges : List (Nat × Nat)
deriving DecidableEq, Repr, Inhabited

namespace CharSet

def gapStart : Nat := 0xd800

/-- How many code points in a row are no characters. -/
def gapSize : Nat := 0x800

def size : Nat := 0x110000 - gapSize

def place (n : Nat) : Nat := if n < gapStart then n else n - gapSize

def codeAt (i : Nat) : Nat := if i < gapStart then i else i + gapSize

/-- Joins a range with those after it that touch it, and so on; `ranges` ascend by their first places. -/
def joined (first last : Nat) : List (Nat × Nat) → List (Nat × Nat)
  | [] => [(first, last)]
  | (a, b) :: rest =>
    if a ≤ last + 1 then joined first (max last b) rest else (first, last) :: joined a b rest

def ofRanges (l : List (Nat × Nat)) : CharSet :=
  match l.mergeSort (fun r s => decide (r.1 ≤ s.1)) with
  | [] => ⟨[]⟩
  | (a, b) :: rest => ⟨joined a b rest⟩

def ofTable (t : CharTable) : CharSet := ofRanges (t.map fun r => (place r.1, place r.2))

def range (first last : Char) : CharSet := ⟨[(place first.toNat, place last.toNat)]⟩

def single (c : Char) : CharSet := range c c

def none : CharSet := ⟨[]⟩

def all : CharSet := ⟨[(0, size - 1)]⟩

/-- Whether the character at a place is in the set. -/
def hasPlace (s : CharSet) (i : Nat) : Bool := s.ranges.any fun r => decide (r.1 ≤ i) && decide (i ≤ r.2)

def has (s : CharSet) (c : Char) : Bool := s.hasPlace (place c.toNat)

def isAscii (s : CharSet) : Bool := s.ranges.all fun r => decide (r.2 < 0x80)

def only? (s : CharSet) : Option Char :=
  match s.ranges with
  | [(a, b)] => if a = b then some (Char.ofNat (codeAt a)) else Option.none
  | _ => Option.none

def unionAll (l : List CharSet) : CharSet := ofRanges (l.flatMap (·.ranges))

def union (s t : CharSet) : CharSet := unionAll [s, t]

/-- The ranges between those of a set, from a place on. -/
def between (start : Nat) : List (Nat × Nat) → List (Nat × Nat)
  | [] => if start < size then [(start, size - 1)] else []
  | (a, b) :: rest => if start < a then (start, a - 1) :: between (b + 1) rest else between (b + 1) rest

def complement (s : CharSet) : CharSet := ⟨between 0 s.ranges⟩

def inter (s t : CharSet) : CharSet := complement (union (complement s) (complement t))

/-- The characters of one set that are not in another. -/
def minus (s t : CharSet) : CharSet := inter s (complement t)

def exclusive (s t : CharSet) : CharSet := union (minus s t) (minus t s)

/-- The set as it is, or complemented. -/
def negatedIf (negated : Bool) (s : CharSet) : CharSet := if negated then complement s else s

/-- The set with all characters that differ from its members in case alone; `pairs` gives the characters that are not
the least of their class with those that are. -/
def caseless (pairs : List (Nat × Nat)) (s : CharSet) : CharSet :=
  let met := pairs.filter fun p => s.hasPlace (place p.1) || s.hasPlace (place p.2)
  let leaders := ofRanges (met.map fun p => (place p.2, place p.2))
  let followers := (pairs.filter fun p => leaders.hasPlace (place p.2)).map fun p => (place p.1, place p.1)
  unionAll [s, leaders, ofRanges followers]

def digit : CharSet := ofTable decimalDigitTable

def blank : CharSet := ofTable blankTable

def word : CharSet := ofTable wordTable

def asciiWord : CharSet := unionAll [range 'a' 'z', range 'A' 'Z', range '0' '9', single '_']

def asciiBlank : CharSet := unionAll [range '\t' '\r', single ' ']

def ofName? : String → Option CharSet
  | "alnum" => some (unionAll [range 'a' 'z', range 'A' 'Z', range '0' '9'])
  | "alpha" => some (unionAll [range 'a' 'z', range 'A' 'Z'])
  | "ascii" => some (range '\x00' '\x7f')
  | "blank" => some (unionAll [single ' ', single '\t'])
  | "cntrl" => some (unionAll [range '\x00' '\x1f', single '\x7f'])
  | "digit" => some (range '0' '9')
  | "graph" => some (range '!' '~')
  | "lower" => some (range 'a' 'z')
  | "print" => some (range ' ' '~')
  | "punct" => some (unionAll [range '!' '/', range ':' '@', range '[' '\x60', range '\x7b' '~'])
  | "space" => some asciiBlank
  | "upper" => some (range 'A' 'Z')
  | "word" => some asciiWord
  | "xdigit" => some (unionAll [range '0' '9', range 'a' 'f', range 'A' 'F'])
  | _ => Option.none

end CharSet

end DeployInventory
