import DeployInventory.Pattern.CharSet
/-!
# Pattern.Flags — the flags of a pattern and what they change

Flags say what the parts of a pattern stand for: whether case counts, whether sets know ASCII only, whether blanks and
comments in the text of the pattern are left out.
-/
namespace DeployInventory

namespace Pattern

/-- The flags that a pattern can set. -/
structure Flags where
  ignoreCase : Bool := false
  /-- `^` and `$` match at lines. -/
  multiline : Bool := false
  /-- `.` matches line breaks. -/
  dotAll : Bool := false
  /-- Lines may end with a carriage return. -/
  carriageReturns : Bool := false
  /-- Sets know ASCII only. -/
  ascii : Bool := false
  /-- Blanks and comments in the pattern do not count. -/
  spaced : Bool := false
deriving Repr

namespace Flags

def word (f : Flags) : CharSet := if f.ascii then .asciiWord else .word

def digit (f : Flags) : CharSet := if f.ascii then .range '0' '9' else .digit

def blank (f : Flags) : CharSet := if f.ascii then .asciiBlank else .blank

/-- Where sets know ASCII only, one with other characters is refused. -/
def admit? (f : Flags) (s : CharSet) : Option CharSet := if f.ascii && !s.isAscii then none else some s

/-- The set with the characters that differ in case alone, where case does not count. -/
def folded (f : Flags) (s : CharSet) : CharSet :=
  if f.ignoreCase then s.caseless (if f.ascii then asciiCasePairs else casePairs) else s

/-- A set that may be negated. Case is left out of account before that: what differs from a member in case alone is
no member of the negated set. -/
def settle? (f : Flags) (negated : Bool) (s : CharSet) : Option CharSet := f.admit? ((f.folded s).negatedIf negated)

def set? (f : Flags) (on : Bool) : Char → Option Flags
  | 'i' => some { f with ignoreCase := on }
  | 'm' => some { f with multiline := on }
  | 's' => some { f with dotAll := on }
  | 'R' => some { f with carriageReturns := on }
  | 'u' => some { f with ascii := !on }
  | 'x' => some { f with spaced := on }
  | 'U' => some f
  | _ => none

/-- Flags between a question mark and the colon or parenthesis that ends them, with the characters read and the rest.
Each flag may come once, and a hyphen before the ones to clear. -/
def list? (f : Flags) (seen : List Char) (on : Bool) : List Char → Option (Flags × List Char × List Char)
  | [] => none
  | c :: rest =>
    if c = ':' ∨ c = ')' then
      if seen.head? = some '-' then none else some (f, seen, c :: rest)
    else if c ∈ seen then none
    else if c = '-' then list? f (c :: seen) false rest
    else match f.set? on c with
      | none => none
      | some g => list? g (c :: seen) on rest

end Flags

/-- The text without blanks and comments at its start, where they do not count. -/
def skipSpace (spaced : Bool) (s : List Char) : List Char :=
  if spaced then go false s else s
where
  /-- Skips blanks, and comments up to the end of their line. -/
  go (inComment : Bool) : List Char → List Char
  | [] => []
  | c :: rest =>
    if inComment then go (c != '\n') rest
    else if c = '#' then go true rest
    else if isBlank c then go false rest
    else c :: rest

/-- The characters at the start that pass a test, so many at most, and the rest. Blanks and comments between them are
left out where they do not count. -/
def takeSpaced (spaced : Bool) (test : Char → Bool) (most : Nat) (s : List Char) : List Char × List Char :=
  go false most s
where
  /-- Takes characters, or skips the rest of a comment. -/
  go (inComment : Bool) : Nat → List Char → List Char × List Char
  | 0, s => ([], s)
  | _, [] => ([], [])
  | most + 1, c :: rest =>
    if inComment then go (c != '\n') (most + 1) rest
    else if spaced && c == '#' then go true (most + 1) rest
    else if spaced && isBlank c then go false (most + 1) rest
    else if test c then
      let (taken, rest) := go false most rest
      (c :: taken, rest)
    else ([], c :: rest)

end Pattern

end DeployInventory
