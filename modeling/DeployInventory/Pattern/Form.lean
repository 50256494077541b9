import DeployInventory.Pattern.Basic
/-!
# Pattern.Form — patterns in normal form

The functions of this module build patterns from their parts. Rows do not stand in rows, nor choices in choices; two
texts in a row are one text, a choice of single characters or of sets is one set, and what all rows of a choice start
with stands before the choice. What can only match the empty text is not repeated.
-/
namespace DeployInventory

namespace Pattern

def nowhere : Pattern := character CharSet.none

/-- One character of a set; a text where the set has just one. -/
def ofSet (s : CharSet) : Pattern :=
  match s.only? with
  | some c => text [c]
  | none => character s

def parts : Pattern → List Pattern
  | empty => []
  | sequence ps => ps
  | p => [p]

def joinTexts : List Pattern → List Pattern
  | [] => []
  | text a :: rest =>
    match joinTexts rest with
    | text b :: more => text (a ++ b) :: more
    | l => text a :: l
  | p :: rest => p :: joinTexts rest

/-- **Patterns in a row.** -/
def row (ps : List Pattern) : Pattern :=
  match joinTexts (ps.flatMap parts) with
  | [] => empty
  | [p] => p
  | l => sequence l

def choices : Pattern → List Pattern
  | either ps => ps
  | p => [p]

/-- The set of a pattern that is one certain character. -/
def letter? : Pattern → Option CharSet
  | text [c] => some (.single c)
  | _ => none

/-- The set of a pattern that is one character of a set. -/
def set? : Pattern → Option CharSet
  | character s => some s
  | _ => none

/-- One set for all patterns of a choice, if each is a single character or each is a set. -/
def oneSet? (ps : List Pattern) : Option Pattern :=
  match ps.mapM letter? with
  | some l => some (ofSet (.unionAll l))
  | none => (ps.mapM set?).map fun l => ofSet (.unionAll l)

/-- A choice whose patterns are not rows with one beginning. -/
def plainChoice (ps : List Pattern) : Pattern :=
  match ps.flatMap choices with
  | [] => nowhere
  | [p] => p
  | l => (oneSet? l).getD (either l)

def shared : List Pattern → List Pattern → List Pattern
  | p :: ps, q :: qs => if p == q then p :: shared ps qs else []
  | _, _ => []

def row? : Pattern → Option (List Pattern)
  | sequence ps => some ps
  | _ => none

/-- **One of several patterns.** -/
def choice (ps : List Pattern) : Pattern :=
  match ps.flatMap choices with
  | [] => nowhere
  | [p] => p
  | l =>
    match oneSet? l, l.mapM row? with
    | some p, _ => p
    | none, some (first :: others) =>
      let start := others.foldl shared first
      if start.isEmpty then either l
      else row (start ++ [plainChoice ((first :: others).map fun r => row (r.drop start.length))])
    | none, _ => either l

mutual

def isFlat : Pattern → Bool
  | empty | gap _ => true
  | text _ | character _ => false
  | repeated p _ most => most.isSome && isFlat p
  | group _ p => isFlat p
  | sequence ps | either ps => areFlat ps

/-- Whether each of several patterns can match the empty text only. -/
def areFlat : List Pattern → Bool
  | [] => true
  | p :: ps => isFlat p && areFlat ps

end

/-- **A pattern so many times in a row.** -/
def times (p : Pattern) (least : Nat) (most : Option Nat) : Pattern :=
  let (least, most) := if p.isFlat then (min least 1, some (min (most.getD 1) 1)) else (least, most)
  if least = 0 ∧ most = some 0 then empty
  else if least = 1 ∧ most = some 1 then p
  else repeated p least most

end Pattern

end DeployInventory
