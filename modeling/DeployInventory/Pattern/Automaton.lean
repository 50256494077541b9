import Std.Data.HashMap
import DeployInventory.Number.Power
import DeployInventory.Pattern.Form
import DeployInventory.Text.ByteRange
/-!
# Pattern.Automaton — the size of the automata of a pattern

Two automata over bytes run a pattern: one reads a text forwards, the other backwards. This module numbers their states
one by one and adds up what they take, and so tells which patterns are too large to run. Every state takes some bytes,
and so does every transition of a state that reads a byte and every way on from a state that branches. The states that
read a set of characters are shared where a set has byte sequences with equal ends.
-/
namespace DeployInventory

namespace Pattern

/-- **How much of an automaton has been built**: the number of its states, and the bytes of the lists in them. -/
structure Extent where
  states : Nat
  lists : Nat
deriving DecidableEq, Repr

namespace Extent

def limit : Nat := 10 * twoTo 20

def transitionBytes : Nat := 8

def start : Extent := ⟨0, 0⟩

/-- The bytes that the states take: each so many, besides its lists. -/
def bytes (e : Extent) : Nat := 32 * e.states + e.lists

/-- The extent, unless it is past the limit. -/
def checked? (e : Extent) : Option Extent := if e.bytes ≤ limit then some e else none

/-- One more state, with some transitions. -/
def state? (e : Extent) (transitions : Nat) : Option Extent :=
  checked? ⟨e.states + 1, e.lists + transitionBytes * transitions⟩

def way? (e : Extent) : Option Extent := checked? { e with lists := e.lists + 4 }

/-- So many more ways on from a state that branches. -/
def ways? (e : Extent) (n : Nat) : Option Extent := checked? { e with lists := e.lists + 4 * n }

end Extent

/-- **A part of an automaton**: the extent with it, and whether the state at its end branches. Where it does, what
follows is one more way on from it. -/
structure Fragment where
  extent : Extent
  branches : Bool

namespace Fragment

/-- A part that is one state and does not branch. -/
def ofState? (e : Extent) : Option Fragment := (e.state? 0).map (⟨·, false⟩)

/-- The extent after something has been put behind the part that ends so. -/
def followed? (branches : Bool) (e : Extent) : Option Extent := if branches then e.way? else some e

end Fragment

/-- A transition: the bytes that it takes and the number of the state that it leads to. -/
structure Transition where
  bytes : ByteRange
  target : Nat
deriving DecidableEq

/-- The slot of a key among so many: a hash of the numbers of the key. -/
def slot (size : UInt64) (key : List UInt64) : UInt64 :=
  key.foldl (fun h n => (h ^^^ n) * 1099511628211) 14695981039346656037 % size

/-- A memory of states that exist already: under each slot the last key met and the number of its state. -/
abbrev Memory (κ : Type) := Std.HashMap UInt64 (κ × Nat)

/-- The state of a key, if the memory has not lost it. -/
def Memory.recall? {κ : Type} [DecidableEq κ] (m : Memory κ) (i : UInt64) (key : κ) : Option Nat :=
  match m[i]? with
  | none => none
  | some (k, n) => if k = key then some n else none

/-! ## Sets of characters, forwards -/

/-- A state that is not numbered yet: its transitions, the last one first, and the bytes of one whose target is still
being built. -/
structure Row where
  transitions : List Transition
  pending : Option ByteRange

/-- The transitions of a row once the target of the last one is known. -/
def Row.settled (r : Row) (target : Nat) : List Transition :=
  match r.pending with
  | none => r.transitions
  | some b => ⟨b, target⟩ :: r.transitions

/-- A set in the course of building: the extent, the states met, and the rows on the way of the last byte sequence. -/
structure Tree where
  extent : Extent
  memory : Memory (List Transition)
  rows : List Row

namespace Tree

def slots : UInt64 := 10000

def keyOf (l : List Transition) : List UInt64 :=
  l.reverse.flatMap fun t => [t.bytes.first.toUInt64, t.bytes.last.toUInt64, t.target.toUInt64]

/-- The number of a state with some transitions, which is a new one if none is remembered. -/
def number? (t : Tree) (l : List Transition) : Option (Nat × Tree) :=
  let i := slot slots (keyOf l)
  match t.memory.recall? i l with
  | some n => some (n, t)
  | none => do
    let extent ← t.extent.state? l.length
    return (t.extent.states, { t with extent, memory := t.memory.insert i (l, t.extent.states) })

/-- Numbers rows, the innermost first; `target` is what the innermost leads to. -/
def settle? (t : Tree) (target : Nat) : List Row → Option (Nat × Tree)
  | [] => some (target, t)
  | r :: outer => do
    let (n, t) ← t.number? (r.settled target)
    settle? t n outer

def closeBelow? (final depth : Nat) (t : Tree) : Option Tree := do
  let (n, t') ← t.settle? final (t.rows.drop (depth + 1)).reverse
  return { t' with rows := t.rows.take depth ++ (t.rows.drop depth).head?.toList.map fun r => ⟨r.settled n, none⟩ }

/-- How many rows go the way of a byte sequence. -/
def sharedDepth : List Row → List ByteRange → Nat
  | r :: rows, b :: bs => if r.pending = some b then sharedDepth rows bs + 1 else 0
  | _, _ => 0

/-- Adds a byte sequence; it comes after those added before. -/
def add? (final : Nat) (t : Tree) (s : List ByteRange) : Option Tree := do
  let depth := sharedDepth t.rows s
  let t ← t.closeBelow? final depth
  match t.rows.getLast?, s.drop depth with
  | some r, b :: bs =>
    return { t with rows := t.rows.dropLast ++ { r with pending := some b } :: bs.map fun b => ⟨[], some b⟩ }
  | _, _ => return t

end Tree

def codeRanges (s : CharSet) : List (Nat × Nat) :=
  s.ranges.flatMap fun (a, b) =>
    if a < CharSet.gapStart ∧ CharSet.gapStart ≤ b then
      [(a, CharSet.gapStart - 1), (CharSet.codeAt CharSet.gapStart, CharSet.codeAt b)]
    else [(CharSet.codeAt a, CharSet.codeAt b)]

def setSequences (s : CharSet) : List (List ByteRange) := (codeRanges s).flatMap fun r => byteSequences r.1 r.2

/-- A set of characters beyond ASCII, forwards. -/
def forwardSet? (s : CharSet) (e : Extent) : Option Fragment := do
  let final := e.states
  let t ← (setSequences s).foldlM (Tree.add? final) ⟨← e.state? 0, {}, [⟨[], none⟩]⟩
  let t ← t.closeBelow? final 0
  let (_, t) ← t.number? (t.rows.flatMap (·.transitions))
  return ⟨t.extent, false⟩

/-! ## Sets of characters, backwards -/

/-- A set in the course of building, backwards: the key of a state is the state that it leads to and its bytes. -/
structure Tails where
  extent : Extent
  memory : Memory (Nat × ByteRange)

namespace Tails

def slots : UInt64 := 1000

/-- The state that takes a byte and leads to another state. -/
def before? (next : Nat) (t : Tails) (b : ByteRange) : Option (Nat × Tails) :=
  let i := slot slots [next.toUInt64, b.first.toUInt64, b.last.toUInt64]
  match t.memory.recall? i (next, b) with
  | some n => some (n, t)
  | none => do
    let extent ← t.extent.state? 0
    return (t.extent.states, ⟨extent, t.memory.insert i ((next, b), t.extent.states)⟩)

def add? (final : Nat) (t : Tails) (s : List ByteRange) : Option Tails := do
  let (_, t) ← s.foldlM (fun (next, t) b => before? next t b) (final, t)
  return { t with extent := ← t.extent.way? }

end Tails

/-- A set of characters beyond ASCII, backwards. -/
def backwardSet? (s : CharSet) (e : Extent) : Option Fragment := do
  let e ← e.state? 0
  let final := e.states
  let t ← (setSequences s).foldlM (Tails.add? final) ⟨← e.state? 0, {}⟩
  return ⟨t.extent, false⟩

def setSize? (forwards : Bool) (s : CharSet) (e : Extent) : Option Fragment :=
  if s.isAscii then do return ⟨← (← e.state? 0).state? s.ranges.length, false⟩
  else if forwards then forwardSet? s e
  else backwardSet? s e

/-! ## Choices of texts -/

/-- Splits texts that share a beginning where one of them ends: what comes before it takes precedence. Ends that
nothing comes before count once. -/
def splitAtEnds (texts : List (List UInt8)) : List (List (List UInt8)) :=
  texts.foldl (fun pieces s =>
    match s, pieces.getLast? with
    | [], _ => if 1 < pieces.length ∧ pieces.all (·.isEmpty) then pieces else pieces ++ [[]]
    | s, some last => pieces.dropLast ++ [last ++ [s]]
    | s, none => [[s]]) [[]]

def byFirst (texts : List (List UInt8)) : List (List (List UInt8)) :=
  (texts.filterMap (·.head?)).eraseDups.map fun b =>
    texts.filterMap fun s => if s.head? = some b then some s.tail else none

/-- The states that tell texts apart, byte by byte; `depth` is at least the length of the texts. -/
def textTree? : (depth : Nat) → List (List UInt8) → Extent → Option Extent
  | 0, _, e => some e
  | depth + 1, texts, e => do
    let pieces := splitAtEnds texts
    let e ← pieces.foldlM (fun e piece => do
      let rests := byFirst piece
      let e ← rests.foldlM (fun e rest => if rest.all (·.isEmpty) then some e else textTree? depth rest e) e
      match rests.length with
      | 0 => return e
      | 1 => e.state? 0
      | n => e.state? n) e
    (← e.state? 0).ways? ((pieces.filter fun piece => !piece.isEmpty).length + pieces.length - 1)

def text? : Pattern → Option (List Char)
  | text cs => some cs
  | _ => none

def textsSize? (forwards : Bool) (texts : List (List Char)) (e : Extent) : Option Fragment := do
  let rows := texts.map fun cs => cs.flatMap String.utf8EncodeChar
  let rows := if forwards then rows else rows.map (·.reverse)
  let depth := rows.foldl (fun n s => max n s.length) 0
  return ⟨← textTree? depth rows (← e.state? 0), false⟩

/-! ## Patterns -/

mutual

/-- Whether every match of a pattern takes a character; none where the pattern has a part that matches nowhere. -/
def takes? : Pattern → Option Bool
  | empty | gap _ => some false
  | text _ => some true
  | character s => if s.ranges.isEmpty then none else some true
  | repeated p least _ => (takes? p).map (· && decide (0 < least))
  | group _ p => takes? p
  | sequence ps => someTakes? ps
  | either ps => allTake? ps

def someTakes? : List Pattern → Option Bool
  | [] => some false
  | p :: ps =>
    match takes? p, someTakes? ps with
    | some a, some b => some (a || b)
    | _, _ => none

def allTake? : List Pattern → Option Bool
  | [] => some true
  | p :: ps =>
    match takes? p, allTake? ps with
    | some a, some b => some (a && b)
    | _, _ => none

end

mutual

/-- Whether every match of a pattern starts at the start of the text. -/
def isHeld : Pattern → Bool
  | gap t => t == .textStart
  | repeated p least _ => decide (0 < least) && isHeld p
  | group _ p => isHeld p
  | sequence ps => isFirstHeld ps
  | either ps => areHeld ps
  | empty | text _ | character _ => false

/-- Whether a row is held by one of its parts before the first that may take a character, or by that. -/
def isFirstHeld : List Pattern → Bool
  | [] => false
  | p :: ps => isHeld p || (p.isFlat && isFirstHeld ps)

def areHeld : List Pattern → Bool
  | [] => true
  | p :: ps => isHeld p && areHeld ps

end

mutual

/-- Whether every match of a pattern ends at the end of the text. -/
def isHeldBack : Pattern → Bool
  | gap t => t == .textEnd
  | repeated p least _ => decide (0 < least) && isHeldBack p
  | group _ p => isHeldBack p
  | sequence ps => isLastHeldBack ps
  | either ps => areHeldBack ps
  | empty | text _ | character _ => false

/-- Whether a row is held by one of its parts after the last that may take a character, or by that. -/
def isLastHeldBack : List Pattern → Bool
  | [] => false
  | p :: ps => (isHeldBack p && areFlat ps) || isLastHeldBack ps

def areHeldBack : List Pattern → Bool
  | [] => true
  | p :: ps => isHeldBack p && areHeldBack ps

end

/-- So many more copies of a part in a row. -/
def copies? (part : Extent → Option Fragment) : Nat → Fragment → Option Fragment
  | 0, f => some f
  | n + 1, f => do
    let g ← part f.extent
    copies? part n { g with extent := ← Fragment.followed? f.branches g.extent }

def exactly? (part : Extent → Option Fragment) (n : Nat) (e : Extent) : Option Fragment :=
  match n with
  | 0 => Fragment.ofState? e
  | n + 1 => do copies? part n (← part e)

/-- So many more copies of a part, each of which may be left out with all after it. -/
def optionals? (part : Extent → Option Fragment) : Nat → Fragment → Option Fragment
  | 0, f => some f
  | n + 1, f => do
    let g ← part (← f.extent.state? 0)
    optionals? part n { g with extent := ← (← Fragment.followed? f.branches g.extent).ways? 2 }

/-- A part any number of times, though so many times at least. -/
def atLeast? (part : Extent → Option Fragment) (takes : Bool) (n : Nat) (e : Extent) : Option Fragment :=
  match n with
  | 0 =>
    if takes then do
      let f ← part (← e.state? 0)
      return ⟨← (← Fragment.followed? f.branches f.extent).way?, true⟩
    else do
      let f ← part e
      let e ← (← (← f.extent.state? 0).state? 0).state? 0
      return ⟨← (← Fragment.followed? f.branches e).ways? 4, false⟩
  | 1 => do
    let f ← part e
    return ⟨← (← Fragment.followed? f.branches (← f.extent.state? 0)).way?, true⟩
  | n + 2 => do
    let f ← copies? part (n + 1) (← part e)
    return ⟨← (← Fragment.followed? f.branches (← f.extent.state? 0)).way?, true⟩

def between? (part : Extent → Option Fragment) (least most : Nat) (e : Extent) : Option Fragment := do
  let f ← exactly? part least e
  let f ← optionals? part (most - least) { f with extent := ← f.extent.state? 0 }
  return ⟨← Fragment.followed? f.branches f.extent, false⟩

def optional? (part : Extent → Option Fragment) (e : Extent) : Option Fragment := do
  let f ← part (← e.state? 0)
  return ⟨← (← Fragment.followed? f.branches (← f.extent.state? 0)).ways? 2, false⟩

def repeatedSize? (part : Extent → Option Fragment) (takes : Bool) (least : Nat) (most : Option Nat) (e : Extent) :
    Option Fragment :=
  match most with
  | none => atLeast? part takes least e
  | some most =>
    if least = 0 ∧ most = 1 then optional? part e
    else if least = most then exactly? part least e
    else between? part least most e

mutual

/-- **The automaton of a pattern**, after what has been built before it. -/
def size? (forwards : Bool) : Pattern → Extent → Option Fragment
  | empty, e | gap _, e => Fragment.ofState? e
  | text cs, e => exactly? Fragment.ofState? (cs.flatMap String.utf8EncodeChar).length e
  | character s, e => setSize? forwards s e
  | repeated p least most, e => repeatedSize? (size? forwards p) ((takes? p).getD false) least most e
  | group _ p, e =>
    if forwards then do
      let f ← size? forwards p (← e.state? 0)
      return ⟨← Fragment.followed? f.branches (← f.extent.state? 0), false⟩
    else size? forwards p e
  | sequence ps, e => if forwards then rowSize? ps e else rowSizeBack? ps e
  | either ps, e =>
    match ps.mapM text? with
    | some texts => textsSize? forwards texts e
    | none => choiceSize? forwards ps e

/-- The automaton of a row, forwards. -/
def rowSize? : List Pattern → Extent → Option Fragment
  | [], e => Fragment.ofState? e
  | [p], e => size? true p e
  | p :: q :: ps, e => do
    let f ← size? true p e
    let g ← rowSize? (q :: ps) f.extent
    return { g with extent := ← Fragment.followed? f.branches g.extent }

/-- The automaton of a row, backwards. -/
def rowSizeBack? : List Pattern → Extent → Option Fragment
  | [], e => Fragment.ofState? e
  | [p], e => size? false p e
  | p :: q :: ps, e => do
    let g ← rowSizeBack? (q :: ps) e
    let f ← size? false p g.extent
    return { f with extent := ← Fragment.followed? g.branches f.extent }

def choiceSize? (forwards : Bool) : List Pattern → Extent → Option Fragment
  | [], e => Fragment.ofState? e
  | [p], e => size? forwards p e
  | p :: q :: ps, e => do
    let f ← size? forwards p e
    let g ← size? forwards q f.extent
    let e ← (← (← g.extent.state? 0).state? 0).ways? 2
    let e ← Fragment.followed? g.branches (← Fragment.followed? f.branches e)
    return ⟨← othersSize? forwards ps e, false⟩

def othersSize? (forwards : Bool) : List Pattern → Extent → Option Extent
  | [], e => some e
  | p :: ps, e => do
    let f ← size? forwards p e
    othersSize? forwards ps (← Fragment.followed? f.branches (← f.extent.way?))

end

/-- **The whole automaton of a pattern.** What need not match at the start has a state before it that takes any byte
again and again; forwards, the match as a whole is kept apart like a group. -/
def automaton? (forwards : Bool) (p : Pattern) : Option Extent := do
  let held := if forwards then p.isHeld else p.isHeldBack
  let e ← if held then Extent.start.state? 0 else (← (← Extent.start.state? 0).state? 0).state? 1
  let f ← size? forwards (if forwards then .group 0 p else p) e
  let e ← Fragment.followed? f.branches (← f.extent.state? 0)
  if held then some e else e.ways? 2

/-- **Whether a pattern is small enough to run.** -/
def isRunnable (p : Pattern) : Bool := (p.automaton? true).isSome && (p.automaton? false).isSome

end Pattern

end DeployInventory
