import DeployInventory.Number.Digits
import DeployInventory.Pattern.Basic
import DeployInventory.Pattern.Flags
/-!
# Pattern.Escape — what a backslash starts in a pattern

A backslash and what follows it stand for a character, for a set of characters or for a test of gaps. The sets by
Unicode property, `\p` and `\P`, are left out and refused like a backslash that starts nothing.
-/
namespace DeployInventory

namespace Pattern

/-- What follows a backslash. -/
inductive Escape where
  | literal (c : Char)
  | set (s : CharSet)
  | gap (t : GapTest)

namespace Escape

/-- A character by its number, which must not be a surrogate or too large. -/
def scalar? (n : Nat) : Option Char := if h : n.isValidChar then some (Char.ofNatAux n h) else none

/-- A character by hexadecimal digits: so many, or any number of them in braces. Two digits are a byte, which must be
an ASCII character where sets know ASCII only. -/
def hex? (f : Flags) (count : Nat) (s : List Char) : Option (Escape × List Char) :=
  match skipSpace f.spaced s with
  | '{' :: rest => do
    let (ds, rest) := takeSpaced f.spaced (fun c => (hexValue? c).isSome) rest.length rest
    match ds, skipSpace f.spaced rest with
    | _ :: _, '}' :: after => return (literal (← scalar? (← hexNumber? ds)), after)
    | _, _ => none
  | s => do
    let (ds, after) := takeSpaced f.spaced (fun c => (hexValue? c).isSome) count s
    let c ← scalar? (← hexNumber? ds)
    if ds.length < count ∨ (f.ascii ∧ count = 2 ∧ 0x80 ≤ c.toNat) then none else return (literal c, after)

/-- Whether a character may stand in the name of a kind of word boundary. -/
def isBoundaryNameChar (c : Char) : Bool := c.isAlpha || c == '-'

/-- A word boundary; in braces its kind may follow. -/
def boundary? (f : Flags) (s : List Char) : Option (Escape × List Char) :=
  match s with
  | '{' :: rest =>
    match takeSpaced f.spaced isBoundaryNameChar rest.length rest with
    | ([], _) => some (gap (.wordBoundary f.word), s)
    | (name, rest) =>
      match String.ofList name, skipSpace f.spaced rest with
      | "start", '}' :: after => some (gap (.wordStart f.word), after)
      | "end", '}' :: after => some (gap (.wordEnd f.word), after)
      | "start-half", '}' :: after => some (gap (.wordStartHalf f.word), after)
      | "end-half", '}' :: after => some (gap (.wordEndHalf f.word), after)
      | _, _ => none
  | s => some (gap (.wordBoundary f.word), s)

def others? (f : Flags) (s : CharSet) : Option Escape := (f.admit? s.complement).map set

/-- **What follows a backslash**, and the rest. -/
def read? (f : Flags) : List Char → Option (Escape × List Char)
  | [] => none
  | c :: rest =>
    match c with
    | 'd' => some (set f.digit, rest)
    | 'D' => (others? f f.digit).map (·, rest)
    | 's' => some (set f.blank, rest)
    | 'S' => (others? f f.blank).map (·, rest)
    | 'w' => some (set f.word, rest)
    | 'W' => (others? f f.word).map (·, rest)
    | 'A' => some (gap .textStart, rest)
    | 'z' => some (gap .textEnd, rest)
    | 'b' => boundary? f rest
    | 'B' => some (gap (.noWordBoundary f.word), rest)
    | '<' => some (gap (.wordStart f.word), rest)
    | '>' => some (gap (.wordEnd f.word), rest)
    | 'a' => some (literal '\x07', rest)
    | 'f' => some (literal '\x0c', rest)
    | 't' => some (literal '\t', rest)
    | 'n' => some (literal '\n', rest)
    | 'r' => some (literal '\r', rest)
    | 'v' => some (literal '\x0b', rest)
    | 'x' => hex? f 2 rest
    | 'u' => hex? f 4 rest
    | 'U' => hex? f 8 rest
    | c => if c.toNat < 0x80 ∧ ¬ c.isAlphanum then some (literal c, rest) else none

end Escape

end Pattern

end DeployInventory
