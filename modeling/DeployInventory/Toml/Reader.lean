import DeployInventory.Toml.Draft
import DeployInventory.Toml.Scalar
import DeployInventory.Toml.Token
/-!
# Toml.Reader — TOML documents from tokens

A machine takes one token at a time. It holds the tables made so far, the path of the current header, the arrays and
inline tables that are still open, and what the next token may be.
-/
namespace DeployInventory

namespace Toml

/-- A key in the course of reading: its parts, the last first, and whether one more has to come. -/
structure KeyDraft where
  parts : List String
  expectsPart : Bool

namespace KeyDraft

def start : KeyDraft := ⟨[], true⟩

/-- Whether a character may stand in a part without quotes. -/
def isBare (c : Char) : Bool := c.isAlphanum || c == '-' || c == '_'

def part? (k : KeyDraft) (s : String) : Option KeyDraft :=
  if k.expectsPart then some ⟨s :: k.parts, false⟩ else none

def dot? (k : KeyDraft) : Option KeyDraft := if k.expectsPart then none else some { k with expectsPart := true }

/-- Takes a word: parts without quotes, dots between them. `current` is the part before the rest of the word, its last
character first. -/
def word? (k : KeyDraft) (current : List Char) : List Char → Option KeyDraft
  | [] => if current.isEmpty then some k else k.part? (.ofList current.reverse)
  | '.' :: rest => do
    let k ← if current.isEmpty then some k else k.part? (.ofList current.reverse)
    word? (← k.dot?) [] rest
  | c :: rest => if isBare c then word? k (c :: current) rest else none

def token? (k : KeyDraft) : Token → Option KeyDraft
  | .blank => some k
  | .text s => k.part? s
  | .word cs => k.word? [] cs
  | _ => none

def partLimit : Nat := 80

/-- The path of a complete key and its last part. -/
def finish? (k : KeyDraft) : Option (List String × String) :=
  match k.expectsPart, k.parts with
  | false, last :: before => if k.parts.length ≤ partLimit then some (before.reverse, last) else none
  | _, _ => none

end KeyDraft

/-- An array or inline table that is still open. -/
inductive Open where
  /-- The items of an array, the last first. -/
  | array (items : List Value)
  /-- The entries of an inline table, and the key whose value is being read. -/
  | inline (entries : Draft.Entries) (path : List String) (key : String)

/-- What the next token may be. -/
inductive Expectation where
  /-- The start of a line. -/
  | line
  /-- Nothing more on this line. -/
  | lineEnd
  /-- What follows the bracket of a header: its key, or a second bracket. -/
  | headerStart
  /-- The key of a header; the flag tells an element of an array of tables. -/
  | header (isElement : Bool) (k : KeyDraft)
  /-- The second closing bracket of a header. -/
  | headerClose
  /-- The key of an entry. -/
  | key (k : KeyDraft)
  /-- The equals sign after a key whose line has ended, as it may in an inline table. -/
  | equals (k : KeyDraft)
  /-- The value after a key. -/
  | value
  /-- An item of an array, or its end. -/
  | item
  /-- An entry of an inline table, or its end. -/
  | entry
  /-- A comma, or the end of the innermost array or inline table. -/
  | separator

/-- **The reading machine.** -/
structure Machine where
  root : Draft.Entries
  /-- The path of the table that the current header opened; none before the first header. -/
  header : List String
  /-- The key of the current line. -/
  path : List String
  key : String
  /-- The arrays and inline tables that are open, the innermost first. -/
  stack : List Open
  expects : Expectation

namespace Machine

def start : Machine := ⟨[], [], [], "", [], .line⟩

/-- How many arrays and inline tables may be open at once. -/
def depthLimit : Nat := 80

/-- Gives the key of the current line its value, in the table of the current header. -/
def assign? (m : Machine) (v : Value) : Option Machine := do
  let root ← Draft.within false (fun _ entries => Draft.assign m.path m.key v entries) m.header .header m.root
  return { m with root, expects := .lineEnd }

/-- A value is complete: it joins what is open around it. -/
def deliver? (m : Machine) (v : Value) : Option Machine :=
  match m.stack with
  | [] => m.assign? v
  | .array items :: outer => some { m with stack := .array (v :: items) :: outer, expects := .separator }
  | .inline entries path key :: outer => do
    let entries ← Draft.assign path key v entries
    return { m with stack := .inline entries path key :: outer, expects := .separator }

def open? (m : Machine) (o : Open) (expects : Expectation) : Option Machine :=
  if m.stack.length < depthLimit then some { m with stack := o :: m.stack, expects } else none

def closeArray? (m : Machine) : Option Machine :=
  match m.stack with
  | .array items :: outer => deliver? { m with stack := outer } (.array items.reverse)
  | _ => none

def closeInline? (m : Machine) : Option Machine :=
  match m.stack with
  | .inline entries _ _ :: outer => deliver? { m with stack := outer } (.table (Draft.finishedEntries entries))
  | _ => none

def value? (m : Machine) : Token → Option Machine
  | .word cs => do m.deliver? (← Scalar.ofWord? cs)
  | .text s | .block s => m.deliver? (.string s)
  | .mark '[' => m.open? (.array []) .item
  | .mark '{' => m.open? (.inline [] [] "") .entry
  | _ => none

def keyDone? (m : Machine) (k : KeyDraft) : Option Machine := do
  let (path, key) ← k.finish?
  match m.stack with
  | .inline entries _ _ :: outer => return { m with stack := .inline entries path key :: outer, expects := .value }
  | _ => return { m with path, key, expects := .value }

def tableHeader? (m : Machine) (k : KeyDraft) : Option Machine := do
  let (path, key) ← k.finish?
  return { m with root := ← Draft.openTable path key m.root, header := path ++ [key], expects := .lineEnd }

/-- The header of an element of an array of tables is complete but for its last bracket. -/
def elementHeader? (m : Machine) (k : KeyDraft) : Option Machine := do
  let (path, key) ← k.finish?
  return { m with root := ← Draft.openElement path key m.root, header := path ++ [key], expects := .headerClose }

/-- **Takes one token.** -/
def step (m : Machine) (t : Token) : Option Machine :=
  match m.expects, t with
  | .line, .blank | .line, .newline => some m
  | .line, .mark '[' => some { m with expects := .headerStart }
  | .line, t => (KeyDraft.start.token? t).map fun k => { m with expects := .key k }
  | .lineEnd, .blank => some m
  | .lineEnd, .newline => some { m with expects := .line }
  | .lineEnd, _ => none
  | .headerStart, .mark '[' => some { m with expects := .header true .start }
  | .headerStart, t => (KeyDraft.start.token? t).map fun k => { m with expects := .header false k }
  | .header false k, .mark ']' => m.tableHeader? k
  | .header true k, .mark ']' => m.elementHeader? k
  | .header isElement k, t => (k.token? t).map fun k => { m with expects := .header isElement k }
  | .headerClose, .mark ']' => some { m with expects := .lineEnd }
  | .headerClose, _ => none
  | .key k, .mark '=' => m.keyDone? k
  | .key k, .newline => if m.stack.isEmpty ∨ k.expectsPart then none else some { m with expects := .equals k }
  | .key k, t => (k.token? t).map fun k => { m with expects := .key k }
  | .equals _, .blank | .equals _, .newline => some m
  | .equals k, .mark '=' => m.keyDone? k
  | .equals _, _ => none
  | .value, .blank => some m
  | .value, .newline => if m.stack.isEmpty then none else some m
  | .value, t => m.value? t
  | .item, .blank | .item, .newline => some m
  | .item, .mark ']' => m.closeArray?
  | .item, t => m.value? t
  | .entry, .blank | .entry, .newline => some m
  | .entry, .mark '}' => m.closeInline?
  | .entry, t => (KeyDraft.start.token? t).map fun k => { m with expects := .key k }
  | .separator, .blank | .separator, .newline => some m
  | .separator, t =>
    match t, m.stack with
    | .mark ',', .array _ :: _ => some { m with expects := .item }
    | .mark ',', .inline _ _ _ :: _ => some { m with expects := .entry }
    | .mark ']', _ => m.closeArray?
    | .mark '}', _ => m.closeInline?
    | _, _ => none

def run (m : Machine) : List Token → Option Machine
  | [] => some m
  | t :: rest => (m.step t).bind (run · rest)

def isComplete (m : Machine) : Bool :=
  match m.expects with
  | .line | .lineEnd => true
  | _ => false

end Machine

/-- **Reads a TOML document.** -/
def parse? (s : String) : Option Table := do
  let m ← Machine.start.run (← Token.ofText? s)
  if m.isComplete then some (Draft.finishedEntries m.root) else none

end Toml

end DeployInventory
