import DeployInventory.Number.Digits
import DeployInventory.Toml.DateTime
/-!
# Toml.Token — the tokens of a TOML text

A text is cut into marks, line ends, blanks, strings and words. Comments end with their line and leave no token. A word
is whatever stands between the others; a date and a time with one blank between them are one word.
-/
namespace DeployInventory

namespace Toml

/-- **A token.** -/
inductive Token where
  /-- One of the six characters `=`, `,`, `[`, `]` and the braces. -/
  | mark (c : Char)
  | newline
  | blank
  /-- A string on one line, its escapes resolved. -/
  | text (s : String)
  /-- A string that may span lines, its escapes resolved. -/
  | block (s : String)
  | word (cs : List Char)
deriving DecidableEq, Repr

namespace Token

def isBlank (c : Char) : Bool := c == ' ' || c == '\t'

/-- Whether a character ends a line or is part of such an end. -/
def isLineEnd (c : Char) : Bool := c == '\n' || c == '\r'

def isMark (c : Char) : Bool := c == '=' || c == ',' || c == '[' || c == ']' || c == '{' || c == '}'

def isQuote (c : Char) : Bool := c == '"' || c == '\''

def isWordPart (c : Char) : Bool := !(isBlank c || isLineEnd c || isMark c || isQuote c || c == '#')

/-- Whether a character may stand in a line of text: all but the control characters, the tab aside. -/
def isPrintable (c : Char) : Bool := c == '\t' || (decide (0x20 ≤ c.toNat) && c != '\x7f')

/-- Whether every carriage return is part of a line end. -/
def pairsReturns : List Char → Bool
  | [] => true
  | '\r' :: '\n' :: rest => pairsReturns rest
  | c :: rest => c != '\r' && pairsReturns rest

/-- The string up to its closing quote, as written, and what follows it. Where there are escapes the character after a
backslash does not close the string. -/
def lineBody (quote : Char) (escapes : Bool) : List Char → Option (List Char × List Char)
  | [] => none
  | [c] => if c = quote then some ([], []) else none
  | c :: d :: rest =>
    if c = quote then some ([], d :: rest)
    else if c = '\n' then none
    else if c = '\\' ∧ escapes then (lineBody quote escapes rest).map fun (raw, r) => (c :: d :: raw, r)
    else (lineBody quote escapes (d :: rest)).map fun (raw, r) => (c :: raw, r)

theorem lineBody_length {quote : Char} {escapes : Bool} {s raw r : List Char}
    (h : lineBody quote escapes s = some (raw, r)) : r.length < s.length := by
  fun_induction lineBody quote escapes s generalizing raw r <;>
    simp only [Option.some.injEq, Prod.mk.injEq, Option.map_eq_some_iff, Prod.exists, reduceCtorEq] at h <;> grind

/-- The string up to its three closing quotes, as written, and what follows it. One or two quotes right before the
closing ones belong to the string. -/
def blockBody (quote : Char) (escapes : Bool) : List Char → Option (List Char × List Char)
  | [] | [_] | [_, _] => none
  | a :: b :: c :: rest =>
    if a = quote ∧ b = quote ∧ c = quote then
      match rest with
      | d :: e :: after =>
        if d = quote ∧ e = quote then some ([d, e], after)
        else if d = quote then some ([d], e :: after)
        else some ([], d :: e :: after)
      | [d] => if d = quote then some ([d], []) else some ([], [d])
      | [] => some ([], [])
    else if a = '\\' ∧ escapes then (blockBody quote escapes (c :: rest)).map fun (raw, r) => (a :: b :: raw, r)
    else (blockBody quote escapes (b :: c :: rest)).map fun (raw, r) => (a :: raw, r)

theorem blockBody_length {quote : Char} {escapes : Bool} {s raw r : List Char}
    (h : blockBody quote escapes s = some (raw, r)) : r.length < s.length := by
  fun_induction blockBody quote escapes s generalizing raw r <;>
    simp only [Option.some.injEq, Prod.mk.injEq, Option.map_eq_some_iff, Prod.exists, reduceCtorEq] at h <;> grind

/-- The character after a backslash that stands for one character. -/
def simpleEscape? : Char → Option Char
  | '"' => some '"'
  | '\\' => some '\\'
  | 'b' => some '\x08'
  | 'e' => some '\x1b'
  | 'f' => some '\x0c'
  | 'n' => some '\n'
  | 'r' => some '\r'
  | 't' => some '\t'
  | _ => none

def numbered? (ds : List Char) : Option Char := do
  let n ← hexNumber? ds
  if h : n.isValidChar then some (Char.ofNatAux n h) else none

/-- The number of digits that the letter of a numbered escape asks for. -/
def numberedWidth? : Char → Option Nat
  | 'x' => some 2
  | 'u' => some 4
  | 'U' => some 8
  | _ => none

/-- The text after a backslash that ends its line: without the line end and all blanks and line ends after it. -/
def continued? (s : List Char) : Option (List Char) :=
  match s.dropWhile isBlank with
  | '\n' :: rest => some (rest.dropWhile fun c => isBlank c || isLineEnd c)
  | '\r' :: rest => some (rest.dropWhile fun c => isBlank c || isLineEnd c)
  | _ => none

theorem continued?_length {s r : List Char} (h : continued? s = some r) : r.length < s.length := by
  have hs := (List.dropWhile_suffix isBlank (l := s)).length_le
  unfold continued? at h
  split at h
  · rename_i rest hr
    simp only [Option.some.injEq] at h
    have := (List.dropWhile_suffix (fun c => isBlank c || isLineEnd c) (l := rest)).length_le
    rw [hr, List.length_cons] at hs
    rw [← h]
    omega
  · rename_i rest hr
    simp only [Option.some.injEq] at h
    have := (List.dropWhile_suffix (fun c => isBlank c || isLineEnd c) (l := rest)).length_le
    rw [hr, List.length_cons] at hs
    rw [← h]
    omega
  · simp at h

/-- **Resolves the escapes of a string**; only a block may have a backslash at the end of a line. -/
def unescaped? (inBlock : Bool) : List Char → Option (List Char)
  | [] => some []
  | ['\\'] => none
  | '\\' :: e :: rest =>
    match simpleEscape? e, numberedWidth? e with
    | some c, _ => (unescaped? inBlock rest).map (c :: ·)
    | none, some width =>
      if rest.length < width then none
      else do
        let c ← numbered? (rest.take width)
        let more ← unescaped? inBlock (rest.drop width)
        return c :: more
    | none, none =>
      if inBlock then
        match h : continued? (e :: rest) with
        | none => none
        | some after =>
          have := continued?_length h
          unescaped? inBlock after
      else none
  | c :: rest => (unescaped? inBlock rest).map (c :: ·)
termination_by s => s.length
decreasing_by
  all_goals simp_all only [List.length_cons, List.length_drop]
  all_goals omega

def lineToken? (quote : Char) (raw : List Char) : Option Token :=
  if raw.all isPrintable then
    if quote = '"' then (unescaped? false raw).map fun cs => .text (.ofList cs) else some (.text (.ofList raw))
  else none

def withoutFirstLineEnd : List Char → List Char
  | '\n' :: rest => rest
  | '\r' :: '\n' :: rest => rest
  | cs => cs

def blockToken? (quote : Char) (raw : List Char) : Option Token :=
  if pairsReturns raw ∧ raw.all (fun c => isPrintable c || isLineEnd c) then
    let raw := withoutFirstLineEnd raw
    if quote = '"' then (unescaped? true raw).map fun cs => .block (.ofList cs) else some (.block (.ofList raw))
  else none

/-- The string token after an opening quote, and what follows it. -/
def string? (quote : Char) (s : List Char) : Option (Token × List Char) :=
  match s with
  | a :: b :: rest =>
    if a = quote ∧ b = quote then do
      let (raw, after) ← blockBody quote (quote == '"') rest
      return (← blockToken? quote raw, after)
    else do
      let (raw, after) ← lineBody quote (quote == '"') (a :: b :: rest)
      return (← lineToken? quote raw, after)
  | s => do
    let (raw, after) ← lineBody quote (quote == '"') s
    return (← lineToken? quote raw, after)

theorem string?_length {quote : Char} {s r : List Char} {t : Token} (h : string? quote s = some (t, r)) :
    r.length < s.length := by
  unfold string? at h
  split at h
  · split at h
    · simp only [Option.bind_eq_bind, Option.bind_eq_some_iff, Prod.exists] at h
      obtain ⟨raw, after, hb, t', _, ht⟩ := h
      have := blockBody_length hb
      simp only [Option.pure_def, Option.some.injEq, Prod.mk.injEq] at ht
      obtain ⟨_, rfl⟩ := ht
      simp only [List.length_cons]
      omega
    · simp only [Option.bind_eq_bind, Option.bind_eq_some_iff, Prod.exists] at h
      obtain ⟨raw, after, hb, t', _, ht⟩ := h
      have := lineBody_length hb
      simp only [Option.pure_def, Option.some.injEq, Prod.mk.injEq] at ht
      obtain ⟨_, rfl⟩ := ht
      exact this
  · simp only [Option.bind_eq_bind, Option.bind_eq_some_iff, Prod.exists] at h
    obtain ⟨raw, after, hb, t', _, ht⟩ := h
    have := lineBody_length hb
    simp only [Option.pure_def, Option.some.injEq, Prod.mk.injEq] at ht
    obtain ⟨_, rfl⟩ := ht
    exact this

/-- The comment before a line end or the end of the text, without the first half of a line end of two characters. -/
def commentBody (s : List Char) : List Char :=
  let body := s.takeWhile (· != '\n')
  if (s.dropWhile (· != '\n')).isEmpty ∨ body.getLast? ≠ some '\r' then body else body.dropLast

/-- The word at the start of a text; a time right after a date and one blank belongs to it. -/
def wordOf (s : List Char) : List Char :=
  s.takeWhile isWordPart ++
    if Date.hasShape (s.takeWhile isWordPart) then
      match s.dropWhile isWordPart with
      | ' ' :: d :: rest => if d.isDigit then ' ' :: (d :: rest).takeWhile isWordPart else []
      | _ => []
    else []

theorem wordOf_length_pos {c : Char} {s : List Char} (h : isWordPart c = true) : 0 < (wordOf (c :: s)).length := by
  simp [wordOf, h]

/-- **The tokens of a text**, after those already read, the last one first. -/
def scan (read : List Token) (s : List Char) : Option (List Token) :=
  match s with
  | [] => some read.reverse
  | c :: rest =>
    if isBlank c then
      have := (List.dropWhile_suffix isBlank (l := rest)).length_le
      scan (.blank :: read) (rest.dropWhile isBlank)
    else if c = '\n' then scan (.newline :: read) rest
    else if c = '\r' then
      match rest with
      | '\n' :: after => scan (.newline :: read) after
      | _ => none
    else if c = '#' then
      have := (List.dropWhile_suffix (· != '\n') (l := rest)).length_le
      if (commentBody rest).all isPrintable then scan read (rest.dropWhile (· != '\n')) else none
    else if isMark c then scan (.mark c :: read) rest
    else if isQuote c then
      match h : string? c rest with
      | none => none
      | some (t, after) =>
        have := string?_length h
        scan (t :: read) after
    else if h : isWordPart c then
      have := wordOf_length_pos (s := rest) h
      scan (.word (wordOf (c :: rest)) :: read) ((c :: rest).drop (wordOf (c :: rest)).length)
    else none
termination_by s.length
decreasing_by
  all_goals simp_all only [List.length_cons, List.length_drop]
  all_goals omega

/-- The tokens of a whole text; a byte order mark before it does not count. -/
def ofText? (s : String) : Option (List Token) :=
  match s.toList with
  | '\ufeff' :: rest => scan [] rest
  | cs => scan [] cs

end Token

end Toml

end DeployInventory
