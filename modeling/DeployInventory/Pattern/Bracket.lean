import DeployInventory.Pattern.Escape
/-!
# Pattern.Bracket — sets in brackets

A set in brackets lists characters, ranges, named sets, escapes and further sets in brackets, and joins such lists by
`&&` (both), `--` (the first without the second) and `~~` (just one of the two). How deep the notation nests is counted
along with the set.
-/
namespace DeployInventory

namespace Pattern

/-- The part of a text that starts where a suffix of it starts. -/
def resume (s suffix : List Char) : List Char := s.drop (s.length - suffix.length)

theorem resume_length (s suffix : List Char) : (resume s suffix).length ≤ s.length := by
  simp [resume]

/-- A set and how deep the notation nests that gives it. -/
structure Member where
  set : CharSet
  depth : Nat

def Member.join : List Member → Member
  | [m] => m
  | l => ⟨.unionAll (l.map (·.set)), (l.map (·.depth + 1)).foldl max 0⟩

/-- An operation on two sets. -/
inductive SetOperation where
  | inter
  | minus
  | exclusive

namespace SetOperation

def apply (s t : CharSet) : SetOperation → CharSet
  | inter => s.inter t
  | minus => s.minus t
  | exclusive => s.exclusive t

/-- The operation between two members. Where case does not count it is left out of account first. -/
def join (op : SetOperation) (f : Flags) (a b : Member) : Member :=
  ⟨op.apply (f.folded a.set) (f.folded b.set), max a.depth b.depth + 1⟩

/-- The operation of a sign, which is written twice. -/
def ofChar? : Char → Option SetOperation
  | '&' => some inter
  | '-' => some minus
  | '~' => some exclusive
  | _ => none

end SetOperation

/-- A bracket that is still open: whether it is negated, the left side of an operation that waits for its right side,
and the members read since, the last one first. -/
structure OpenBracket where
  negated : Bool
  pending : Option (Member × SetOperation)
  members : List Member

namespace OpenBracket

/-- What has been read, taken together with a waiting operation. -/
def total (f : Flags) (k : OpenBracket) : Member :=
  let here := Member.join k.members
  match k.pending with
  | none => here
  | some (left, op) => op.join f left here

def close? (f : Flags) (k : OpenBracket) : Option Member := do
  return ⟨← f.settle? k.negated (k.total f).set, (k.total f).depth + 1⟩

def operate (f : Flags) (k : OpenBracket) (op : SetOperation) : OpenBracket :=
  { k with pending := some (k.total f, op), members := [] }

def add (k : OpenBracket) (m : Member) : OpenBracket := { k with members := m :: k.members }

def addSet (k : OpenBracket) (s : CharSet) : OpenBracket := k.add ⟨s, 0⟩

/-- A bracket after its negation, and hyphens and a closing bracket at its start, which stand for themselves. -/
def start (f : Flags) (s : List Char) : OpenBracket × List Char :=
  let s := skipSpace f.spaced s
  let (negated, s) := match s with
    | '^' :: rest => (true, skipSpace f.spaced rest)
    | s => (false, s)
  let (hyphens, s) := takeSpaced f.spaced (· == '-') s.length s
  match hyphens, skipSpace f.spaced s with
  | [], ']' :: rest => (⟨negated, none, [⟨.single ']', 0⟩]⟩, rest)
  | hyphens, s => (⟨negated, none, hyphens.map fun c => ⟨.single c, 0⟩⟩, s)

end OpenBracket

/-- A named set of ASCII characters such as `[:alpha:]`, after its first bracket: whether it is negated, the set and
the rest. -/
def namedSet? : List Char → Option (Bool × CharSet × List Char)
  | ':' :: rest =>
    let (negated, rest) := match rest with
      | '^' :: r => (true, r)
      | r => (false, r)
    match rest.dropWhile (· != ':') with
    | ':' :: ']' :: after => do
      return (negated, ← CharSet.ofName? (.ofList (rest.takeWhile (· != ':'))), after)
    | _ => none
  | _ => none

def bracketItem? (f : Flags) : List Char → Option ((Char ⊕ CharSet) × List Char)
  | [] => none
  | '\\' :: rest =>
    match Escape.read? f rest with
    | some (.literal c, after) => some (.inl c, after)
    | some (.set s, after) => some (.inr s, after)
    | _ => none
  | c :: rest => some (.inl c, rest)

/-- The character after a hyphen that tells whether the hyphen makes a range. Blanks are passed over where they do not
count, and one sign of a comment, though not the comment. -/
def glance? (spaced : Bool) (s : List Char) : Option Char :=
  if spaced then (go false s).or s.head? else s.head?
where
  /-- Passes over blanks and the first sign of a comment. -/
  go (inComment : Bool) : List Char → Option Char
  | [] => none
  | c :: rest =>
    if isBlank c then go inComment rest
    else if c = '#' ∧ !inComment then go true rest
    else some c

/-- A character, a set or a range of characters. -/
def bracketRange? (f : Flags) (s : List Char) : Option (CharSet × List Char) := do
  let (item, after) ← bracketItem? f s
  let here := match item with
    | .inl c => CharSet.single c
    | .inr s => s
  match skipSpace f.spaced after with
  | '-' :: more =>
    if glance? f.spaced more = some ']' ∨ glance? f.spaced more = some '-' then
      return (← f.admit? here, '-' :: more)
    else
      let (other, rest) ← bracketItem? f (skipSpace f.spaced more)
      match item, other with
      | .inl first, .inl last => if first ≤ last then return (← f.admit? (.range first last), rest) else none
      | _, _ => none
  | after => return (← f.admit? here, after)

/-- How far the reading of brackets is. -/
inductive BracketState where
  /-- The innermost open bracket and those around it. -/
  | open (k : OpenBracket) (outer : List OpenBracket)
  /-- The outermost one is complete. -/
  | closed (m : Member)

/-- Reads on in the innermost open bracket; `s` starts with `c` and goes on with `rest`. -/
def bracketStep? (f : Flags) (k : OpenBracket) (outer : List OpenBracket) (c : Char) (rest : List Char) :
    Option (BracketState × List Char) :=
  if f.spaced ∧ (isBlank c ∨ c = '#') then some (.open k outer, skipSpace true (c :: rest))
  else if c = '[' then
    match namedSet? rest with
    | some (negated, s, after) => (f.settle? negated s).map fun s => (.open (k.addSet s) outer, after)
    | none =>
      let (inner, after) := OpenBracket.start f rest
      some (.open inner (k :: outer), after)
  else if c = ']' then
    (k.close? f).map fun m =>
      match outer with
      | [] => (.closed m, rest)
      | k :: outer => (.open (k.add m) outer, rest)
  else
    match SetOperation.ofChar? c, decide (rest.head? = some c) with
    | some op, true => some (.open (k.operate f op) outer, rest.tail)
    | _, _ => (bracketRange? f (c :: rest)).map fun (s, after) => (.open (k.addSet s) outer, after)

def readBrackets? (f : Flags) (k : OpenBracket) (outer : List OpenBracket) : List Char → Option (Member × List Char)
  | [] => none
  | c :: rest =>
    match bracketStep? f k outer c rest with
    | none => none
    | some (.closed m, after) => some (m, after)
    | some (.open k outer, after) =>
      have := resume_length rest after
      readBrackets? f k outer (resume rest after)
termination_by s => s.length
decreasing_by simp only [List.length_cons]; omega

/-- **The set of a bracket**, after its first sign, and the rest. -/
def bracket? (f : Flags) (s : List Char) : Option (Member × List Char) :=
  let (k, inside) := OpenBracket.start f s
  readBrackets? f k [] inside

end Pattern

end DeployInventory
