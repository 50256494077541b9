import DeployInventory.Pattern.CharSet
/-!
# Pattern — search patterns and where they match

A text of n characters has n + 1 gaps: before, between and after its characters. A pattern takes a set of gaps to the
set of gaps at which a match that starts in one of them may end; `reach` computes it by recursion on the pattern. A
pattern matches somewhere in a text when it reaches a gap from all gaps.
-/
namespace DeployInventory

/-- What a pattern may ask of a gap. -/
inductive GapTest where
  | textStart
  | textEnd
  /-- The start of a line; the flag makes a carriage return end lines too. -/
  | lineStart (carriageReturns : Bool)
  | lineEnd (carriageReturns : Bool)
  /-- Between a character of a word and another one, words being made of the characters of a set. -/
  | wordBoundary (letters : CharSet)
  | noWordBoundary (letters : CharSet)
  | wordStart (letters : CharSet)
  | wordEnd (letters : CharSet)
  /-- No character of a word before the gap. -/
  | wordStartHalf (letters : CharSet)
  /-- No character of a word after the gap. -/
  | wordEndHalf (letters : CharSet)
deriving DecidableEq, Repr

namespace GapTest

/-- Whether there is a neighbour and it belongs to a word. -/
def inWord (letters : CharSet) : Option Char → Bool
  | none => false
  | some c => letters.has c

def passes (before after : Option Char) : GapTest → Bool
  | textStart => before.isNone
  | textEnd => after.isNone
  | lineStart false => before.isNone || before == some '\n'
  | lineEnd false => after.isNone || after == some '\n'
  | lineStart true => before.isNone || before == some '\n' || (before == some '\r' && after != some '\n')
  | lineEnd true => after.isNone || after == some '\r' || (after == some '\n' && before != some '\r')
  | wordBoundary w => inWord w before != inWord w after
  | noWordBoundary w => inWord w before == inWord w after
  | wordStart w => !inWord w before && inWord w after
  | wordEnd w => inWord w before && !inWord w after
  | wordStartHalf w => !inWord w before
  | wordEndHalf w => !inWord w after

end GapTest

/-- **A search pattern.** -/
inductive Pattern where
  /-- The empty text. -/
  | empty
  /-- Some characters in a row; there is at least one. -/
  | text (cs : List Char)
  /-- One character of a set. -/
  | character (s : CharSet)
  /-- The empty text at a gap that passes a test. -/
  | gap (t : GapTest)
  /-- So many times in a row at least, and at most, if there is a bound. -/
  | repeated (p : Pattern) (least : Nat) (most : Option Nat)
  /-- A part of a pattern that is kept apart under a number. -/
  | group (number : Nat) (p : Pattern)
  /-- Patterns in a row. -/
  | sequence (ps : List Pattern)
  /-- One of several patterns. -/
  | either (ps : List Pattern)
deriving BEq, Repr, Inhabited

namespace Pattern

/-- A set of gaps of a text: a flag for each gap from the first to the last. -/
abbrev Gaps := List Bool

def join (s t : Gaps) : Gaps := List.zipWith (· || ·) s t

def advance (test : Char → Bool) (cs : List Char) (start : Gaps) : Gaps :=
  false :: List.zipWith (fun c here => here && test c) cs start

/-- The neighbours of every gap; `before` is the character before the text. -/
def neighbours (before : Option Char) : List Char → List (Option Char × Option Char)
  | [] => [(before, none)]
  | c :: rest => (before, some c) :: neighbours (some c) rest

/-- Applies a step so many times, or until it changes nothing. -/
def iterate (step : Gaps → Gaps) : Nat → Gaps → Gaps
  | 0, s => s
  | n + 1, s =>
    let next := step s
    if next == s then s else iterate step n next

/-- Applies a step at most so many times and keeps all gaps met, or until there is no new one. -/
def collect (step : Gaps → Gaps) : Nat → Gaps → Gaps
  | 0, s => s
  | n + 1, s =>
    let next := join s (step s)
    if next == s then s else collect step n next

mutual

/-- **The gaps at which matches end** that start in a set of gaps; `cs` is the text. -/
def reach (cs : List Char) : Pattern → Gaps → Gaps
  | empty, s => s
  | text own, s => own.foldl (fun s c => advance (· == c) cs s) s
  | character set, s => advance set.has cs s
  | gap t, s => List.zipWith (fun here n => here && t.passes n.1 n.2) s (neighbours none cs)
  | repeated p least most, s =>
    collect (reach cs p) ((most.map (· - least)).getD (cs.length + 1)) (iterate (reach cs p) least s)
  | group _ p, s => reach cs p s
  | sequence ps, s => reachAll cs ps s
  | either ps, s => reachAny cs ps s

/-- The gaps at which matches of patterns in a row end. -/
def reachAll (cs : List Char) : List Pattern → Gaps → Gaps
  | [], s => s
  | p :: ps, s => reachAll cs ps (reach cs p s)

/-- The gaps at which matches of one of several patterns end. -/
def reachAny (cs : List Char) : List Pattern → Gaps → Gaps
  | [], s => s.map fun _ => false
  | p :: ps, s => join (reach cs p s) (reachAny cs ps s)

end

/-- **Whether a pattern matches somewhere in a text.** -/
def matchesIn (p : Pattern) (s : String) : Bool :=
  (p.reach s.toList (List.replicate (s.toList.length + 1) true)).any id

end Pattern

end DeployInventory
