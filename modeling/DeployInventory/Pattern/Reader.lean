import DeployInventory.Number.Power
import DeployInventory.Pattern.Automaton
import DeployInventory.Pattern.Bracket
/-!
# Pattern.Reader — search patterns from text

The syntax is that of the usual regular expressions without look-around and back-references: `.`, classes with ranges,
nesting and set operations, escapes, groups, alternation, repetition, anchors, and flags such as `(?i)`. A text that is
no pattern gives none, and so does one that nests too deep or is too large to run. Classes by Unicode property, `\p` and
`\P`, are left out: a text with one gives none here, although it is a pattern.
-/
namespace DeployInventory

namespace Pattern

/-- A number of repetitions, blanks around it, and the rest. -/
def count? (spaced : Bool) (s : List Char) : Option (Nat × List Char) :=
  let s := s.dropWhile isBlank
  let (ds, rest) := takeSpaced spaced Char.isDigit s.length s
  if ds.isEmpty ∨ twoTo 32 ≤ decimalValue ds then none
  else some (decimalValue ds, (skipSpace spaced rest).dropWhile isBlank)

/-- The bounds of a repetition after its opening brace, and the rest. -/
def bounds? (spaced : Bool) (s : List Char) : Option (Nat × Option Nat × List Char) := do
  let (least, s) ← count? spaced (skipSpace spaced s)
  match s with
  | '}' :: rest => return (least, some least, rest)
  | ',' :: s =>
    match skipSpace spaced s with
    | '}' :: rest => return (least, none, rest)
    | s =>
      let (most, s) ← count? spaced s
      match s with
      | '}' :: rest => if least ≤ most then return (least, some most, rest) else none
      | _ => none
  | _ => none

/-- The rest after the mark of a lazy repetition, which does not change what matches. -/
def skipLazy : List Char → List Char
  | '?' :: rest => rest
  | s => s

/-- Whether a character may start the name of a group. -/
def isNameStart (c : Char) : Bool := c == '_' || isLetter c

/-- Whether a character may stand in the name of a group. -/
def isNamePart (c : Char) : Bool := c == '_' || c == '.' || c == '[' || c == ']' || isLetterOrNumber c

/-- The name of a group up to its closing mark, and the rest. -/
def groupName? (s : List Char) : Option (String × List Char) :=
  let name := s.takeWhile (· != '>')
  match name, s.dropWhile (· != '>') with
  | c :: cs, '>' :: rest => if isNameStart c && cs.all isNamePart then some (.ofList name, rest) else none
  | _, _ => none

/-- What opens a group, after its parenthesis. -/
inductive Opening where
  /-- Flags for the rest of the enclosing group. -/
  | directive (f : Flags)
  /-- A group with flags of its own. -/
  | flagged (f : Flags)
  /-- A group that is kept apart, perhaps under a name. -/
  | numbered (name : Option String)

/-- What opens a group, and the rest. -/
def opening? (f : Flags) (s : List Char) : Option (Opening × List Char) :=
  match skipSpace f.spaced s with
  | '?' :: 'P' :: '<' :: rest => (groupName? rest).map fun (name, rest) => (.numbered name, rest)
  | '?' :: '<' :: rest => (groupName? rest).map fun (name, rest) => (.numbered name, rest)
  | '?' :: rest =>
    match f.list? [] true rest with
    | some (g, seen, ')' :: after) => if seen.isEmpty then none else some (.directive g, after)
    | some (g, _, ':' :: after) => some (.flagged g, after)
    | _ => none
  | s => some (.numbered none, s)

/-- A pattern and how deep the notation nests that gives it. -/
structure Piece where
  pattern : Pattern
  depth : Nat

/-- Several pieces as one, unless there is just one. -/
def Piece.join (build : List Pattern → Pattern) : List Piece → Piece
  | [p] => p
  | l => ⟨build (l.map (·.pattern)), (l.map (·.depth + 1)).foldl max 0⟩

/-- A group that is still open, or the pattern itself: the flags around it, its number, its complete alternatives and
the items of the alternative that is being read, each the last one first. The mark says whether the last item can be
repeated, which a directive cannot. -/
structure OpenGroup where
  outerFlags : Flags
  number : Option Nat
  alternatives : List Piece := []
  items : List Piece := []
  repeatable : Bool := false

namespace OpenGroup

def add (g : OpenGroup) (p : Piece) : OpenGroup := { g with items := p :: g.items, repeatable := true }

def addDirective (g : OpenGroup) : OpenGroup := { g with items := ⟨empty, 0⟩ :: g.items, repeatable := false }

def endAlternative (g : OpenGroup) : OpenGroup :=
  { g with alternatives := Piece.join row g.items.reverse :: g.alternatives, items := [], repeatable := false }

def content (g : OpenGroup) : Piece := Piece.join choice g.endAlternative.alternatives.reverse

def close (g : OpenGroup) : Piece :=
  let p := g.content
  ⟨(g.number.map fun n => group n p.pattern).getD p.pattern, p.depth + 1⟩

def repeatLast? (g : OpenGroup) (least : Nat) (most : Option Nat) : Option OpenGroup :=
  match g.items with
  | p :: before =>
    if g.repeatable then some { g with items := ⟨p.pattern.times least most, p.depth + 1⟩ :: before } else none
  | [] => none

end OpenGroup

/-- How far the reading of a pattern is: the flags in force, the names of groups so far, how many groups are numbered,
the innermost open group and those around it. -/
structure Reading where
  flags : Flags
  names : List String
  groups : Nat
  current : OpenGroup
  outer : List OpenGroup

namespace Reading

def start : Reading := ⟨{}, [], 1, ⟨{}, none, [], [], false⟩, []⟩

def add (r : Reading) (p : Pattern) (depth : Nat) : Reading := { r with current := r.current.add ⟨p, depth⟩ }

/-- Opens a group, or follows a directive. -/
def enter? (r : Reading) : Opening → Option Reading
  | .directive f => some { r with flags := f, current := r.current.addDirective }
  | .flagged f => some { r with flags := f, current := ⟨r.flags, none, [], [], false⟩, outer := r.current :: r.outer }
  | .numbered name =>
    if name.any (· ∈ r.names) then none
    else some { r with
      names := name.toList ++ r.names
      groups := r.groups + 1
      current := ⟨r.flags, some r.groups, [], [], false⟩
      outer := r.current :: r.outer }

def leave? (r : Reading) : Option Reading :=
  match r.outer with
  | [] => none
  | g :: outer => some { r with flags := r.current.outerFlags, current := g.add r.current.close, outer }

def repeatLast? (r : Reading) (least : Nat) (most : Option Nat) : Option Reading :=
  (r.current.repeatLast? least most).map fun g => { r with current := g }

end Reading

def literal (f : Flags) (c : Char) : Pattern := ofSet (f.folded (.single c))

/-- The pattern of a dot. Where sets know ASCII only it has no meaning. -/
def dot? (f : Flags) : Option Pattern :=
  if f.ascii then none
  else if f.dotAll then some (ofSet .all)
  else if f.carriageReturns then some (ofSet (CharSet.union (.single '\n') (.single '\r')).complement)
  else some (ofSet (CharSet.single '\n').complement)

def ofEscape (f : Flags) : Escape → Pattern
  | .literal c => literal f c
  | .set s => ofSet s
  | .gap t => .gap t

/-- Reads on; the text starts with `c` and goes on with `rest`. -/
def step? (r : Reading) (c : Char) (rest : List Char) : Option (Reading × List Char) :=
  let f := r.flags
  if f.spaced ∧ (isBlank c ∨ c = '#') then some (r, skipSpace true (c :: rest))
  else match c with
  | '(' => do
    let (o, after) ← opening? f rest
    return (← r.enter? o, after)
  | ')' => r.leave?.map (·, rest)
  | '|' => some ({ r with current := r.current.endAlternative }, rest)
  | '[' => (bracket? f rest).map fun (m, after) => (r.add (ofSet m.set) m.depth, after)
  | '*' => (r.repeatLast? 0 none).map (·, skipLazy rest)
  | '+' => (r.repeatLast? 1 none).map (·, skipLazy rest)
  | '?' => (r.repeatLast? 0 (some 1)).map (·, skipLazy rest)
  | '{' => do
    let (least, most, after) ← bounds? f.spaced rest
    return (← r.repeatLast? least most, skipLazy (skipSpace f.spaced after))
  | '\\' => (Escape.read? f rest).map fun (e, after) => (r.add (ofEscape f e) 0, after)
  | '.' => (dot? f).map fun p => (r.add p 0, rest)
  | '^' => some (r.add (.gap (if f.multiline then .lineStart f.carriageReturns else .textStart)) 0, rest)
  | '$' => some (r.add (.gap (if f.multiline then .lineEnd f.carriageReturns else .textEnd)) 0, rest)
  | c => some (r.add (literal f c) 0, rest)

def readAll? (r : Reading) : List Char → Option Reading
  | [] => some r
  | c :: rest =>
    match step? r c rest with
    | none => none
    | some (r, after) =>
      have := resume_length rest after
      readAll? r (resume rest after)
termination_by s => s.length
decreasing_by simp only [List.length_cons]; omega

def maxDepth : Nat := 250

/-- **Reads a search pattern.** -/
def parse? (s : String) : Option Pattern := do
  let r ← readAll? .start s.toList
  let p := r.current.content
  if r.outer.isEmpty ∧ p.depth ≤ maxDepth ∧ p.pattern.isRunnable then return p.pattern else none

/-- **The engine of these patterns**: which names a pattern matches somewhere. -/
def engine (s : String) : Option (String → Bool) := (parse? s).map matchesIn

end Pattern

end DeployInventory
