import DeployInventory.Json.Basic
import DeployInventory.Number.Digits
/-!
# Json.Reader — JSON documents from text

`Json.parse?` reads a text in three steps: characters to tokens, tokens to a document, the fields of its objects
sorted. The second step is a machine with a stack of open arrays and objects, fed one token at a time, so nesting of
any depth is read by one walk over the tokens.
-/
namespace DeployInventory

namespace Json

/-- A token of a JSON text. -/
inductive Token where
  /-- One of the six marks for brackets, braces, colon and comma. -/
  | mark (c : Char)
  /-- A string, its escapes resolved. -/
  | text (s : String)
  /-- A run of other characters: a literal name or a number. -/
  | word (cs : List Char)
deriving Repr

/-- The character after a backslash that stands for one character. -/
def simpleEscape? : Char → Option Char
  | '"' => some '"'
  | '\\' => some '\\'
  | '/' => some '/'
  | 'b' => some '\x08'
  | 'f' => some '\x0c'
  | 'n' => some '\n'
  | 'r' => some '\r'
  | 't' => some '\t'
  | _ => none

/-- The rest of a string after its opening mark: its characters and what follows the closing mark. A character
beyond U+FFFF is escaped as a pair of surrogates; half a pair is refused. -/
def stringBody : List Char → Option (List Char × List Char)
  | [] => none
  | '"' :: rest => some ([], rest)
  | '\\' :: 'u' :: a :: b :: c :: d :: rest =>
    match hexNumber? [a, b, c, d] with
    | none => none
    | some n =>
      if 0xD800 ≤ n ∧ n < 0xDC00 then
        match rest with
        | '\\' :: 'u' :: e :: f :: g :: h :: rest' =>
          match hexNumber? [e, f, g, h] with
          | some m =>
            if 0xDC00 ≤ m ∧ m < 0xE000 then
              (stringBody rest').map fun (cs, r) =>
                (Char.ofNat (0x10000 + (n - 0xD800) * 0x400 + (m - 0xDC00)) :: cs, r)
            else none
          | none => none
        | _ => none
      else if 0xDC00 ≤ n ∧ n < 0xE000 then none
      else (stringBody rest).map fun (cs, r) => (Char.ofNat n :: cs, r)
  | '\\' :: e :: rest =>
    match simpleEscape? e with
    | some c => (stringBody rest).map fun (cs, r) => (c :: cs, r)
    | none => none
  | c :: rest => if c.toNat < 0x20 then none else (stringBody rest).map fun (cs, r) => (c :: cs, r)

theorem stringBody_length {s cs r : List Char} (h : stringBody s = some (cs, r)) : r.length < s.length := by
  fun_induction stringBody s generalizing cs r with
  | case1 => simp at h
  | case2 rest =>
    simp only [Option.some.injEq, Prod.mk.injEq] at h
    obtain ⟨_, rfl⟩ := h
    simp
  | case3 => simp at h
  | case4 =>
    rename_i ih
    simp only [Option.map_eq_some_iff, Prod.mk.injEq] at h
    obtain ⟨⟨cs', r'⟩, h', _, rfl⟩ := h
    have := ih h'
    simp only [List.length_cons]
    omega
  | case5 => simp at h
  | case6 => simp at h
  | case7 => simp at h
  | case8 => simp at h
  | case9 =>
    rename_i ih
    simp only [Option.map_eq_some_iff, Prod.mk.injEq] at h
    obtain ⟨⟨cs', r'⟩, h', _, rfl⟩ := h
    have := ih h'
    simp only [List.length_cons]
    omega
  | case10 =>
    rename_i ih
    simp only [Option.map_eq_some_iff, Prod.mk.injEq] at h
    obtain ⟨⟨cs', r'⟩, h', _, rfl⟩ := h
    have := ih h'
    simp only [List.length_cons]
    omega
  | case11 => simp at h
  | case12 => simp at h
  | case13 =>
    rename_i ih
    simp only [Option.map_eq_some_iff, Prod.mk.injEq] at h
    obtain ⟨⟨cs', r'⟩, h', _, rfl⟩ := h
    have := ih h'
    simp only [List.length_cons]
    omega

def isBlank (c : Char) : Bool := c == ' ' || c == '\t' || c == '\n' || c == '\r'

def isMark (c : Char) : Bool := c == '[' || c == ']' || c == '{' || c == '}' || c == ':' || c == ','

def isWordPart (c : Char) : Bool := !isBlank c && !isMark c && c != '"'

/-- The tokens of a text, after those already read, the last one first. -/
def tokens (read : List Token) (s : List Char) : Option (List Token) :=
  match s with
  | [] => some read.reverse
  | c :: rest =>
    if isBlank c then tokens read rest
    else if isMark c then tokens (.mark c :: read) rest
    else if c = '"' then
      match h : stringBody rest with
      | none => none
      | some (cs, after) =>
        have := stringBody_length h
        tokens (.text (.ofList cs) :: read) after
    else
      have := (List.dropWhile_suffix isWordPart (l := rest)).length_le
      tokens (.word (c :: rest.takeWhile isWordPart) :: read) (rest.dropWhile isWordPart)
termination_by s.length
decreasing_by
  all_goals simp only [List.length_cons]
  all_goals omega

/-- A decimal in the course of reading: the leading digits that fit 64 bits, the power of ten they stand at, and
whether a digit no longer fitted. -/
structure Leading where
  digits : Nat
  power : Int
  full : Bool

namespace Leading

/-- A digit before the point: one that does not fit counts as a power of ten only. -/
def whole (l : Leading) (c : Char) : Leading :=
  let wider := l.digits * 10 + digitValue c
  if l.full || decide (twoTo 64 ≤ wider) then { l with power := l.power + 1, full := true }
  else { l with digits := wider }

/-- A digit after the point: one that does not fit ends the number's precision. -/
def part (l : Leading) (c : Char) : Leading :=
  let wider := l.digits * 10 + digitValue c
  if l.full || decide (twoTo 64 ≤ wider) then { l with full := true }
  else { digits := wider, power := l.power - 1, full := false }

end Leading

/-- Ten to a power of at most 308, as a double. -/
def powerOfTen (n : Nat) : Binary64 := .ofDecimal false 1 n

/-- A double divided by a power of ten, at most 308 of them at a time. -/
def scaleDown (x : Binary64) (n : Nat) : Binary64 :=
  if n ≤ 308 then x.div (powerOfTen n)
  else if x.isZero then x
  else scaleDown (x.div (powerOfTen 308)) (n - 308)
termination_by n

/-- The leading digits and the power of ten put together, each step rounded; nothing beyond the largest double. -/
def scaled? (digits : Nat) (power : Int) : Option Binary64 :=
  let x := Binary64.ofQuotient false digits 1
  if power < 0 then some (scaleDown x power.natAbs)
  else if 308 < power then if x.isZero then some x else none
  else
    let y := x.mul (powerOfTen power.toNat)
    if y.isFinite then some y else none

def signed (isNegative : Bool) (x : Binary64) : Binary64 := if isNegative then x.neg else x

/-- A number without a fraction and an exponent: an integer where it fits 64 bits; minus zero is a double. -/
def wholeNumber? (isNegative : Bool) (ds : List Char) : Option JsonNumber :=
  let l := ds.foldl Leading.whole ⟨0, 0, false⟩
  if l.full then (scaled? l.digits l.power).map fun x => .double (signed isNegative x)
  else if !isNegative then some (.integer l.digits)
  else if l.digits = 0 ∨ twoTo 63 < l.digits then some (.double (signed true (.ofQuotient false l.digits 1)))
  else some (.integer (-(l.digits : Int)))

/-- The exponent that follows the letter: an optional sign and digits. -/
def exponent? : List Char → Option Int
  | '+' :: ds => if ds ≠ [] ∧ ds.all Char.isDigit then some (decimalValue ds) else none
  | '-' :: ds => if ds ≠ [] ∧ ds.all Char.isDigit then some (-(decimalValue ds : Int)) else none
  | ds => if ds ≠ [] ∧ ds.all Char.isDigit then some (decimalValue ds) else none

def magnitude? (isNegative : Bool) (cs : List Char) : Option JsonNumber :=
  let whole := cs.takeWhile Char.isDigit
  let rest := cs.dropWhile Char.isDigit
  let wellFormed := whole ≠ [] ∧ (whole.length = 1 ∨ whole.head? ≠ some '0')
  if ¬ wellFormed then none
  else
    let start := whole.foldl Leading.whole ⟨0, 0, false⟩
    let finish (l : Leading) (e : Int) : Option JsonNumber :=
      (scaled? l.digits (l.power + e)).map fun x => .double (signed isNegative x)
    match rest with
    | [] => wholeNumber? isNegative whole
    | '.' :: after =>
      let part := after.takeWhile Char.isDigit
      let l := part.foldl Leading.part { start with full := false }
      match part, after.dropWhile Char.isDigit with
      | [], _ => none
      | _, [] => finish l 0
      | _, e :: ex => if e = 'e' ∨ e = 'E' then (exponent? ex).bind (finish l) else none
    | e :: ex => if e = 'e' ∨ e = 'E' then (exponent? ex).bind (finish start) else none

def number? : List Char → Option JsonNumber
  | '-' :: cs => magnitude? true cs
  | cs => magnitude? false cs

/-- A word: one of the three names, or a number. -/
def ofWord? (cs : List Char) : Option Json :=
  match String.ofList cs with
  | "null" => some .null
  | "true" => some (.bool true)
  | "false" => some (.bool false)
  | _ => (number? cs).map .number

/-- An array or object that is still open, its contents the last one first. -/
inductive Open where
  | array (items : List Json)
  | object (fields : List (String × Json)) (key : String)

/-- What the next token has to be. -/
inductive Expectation where
  /-- A value; the flag allows the end of a just opened array as well. -/
  | value (orEnd : Bool)
  /-- The key of a field; the flag allows the end of a just opened object as well. -/
  | key (orEnd : Bool)
  /-- The colon after a key. -/
  | colon
  /-- A comma, or the end of the innermost array or object. -/
  | separator
  /-- Nothing: the document is complete. -/
  | nothing (document : Json)

/-- The reading machine: the open arrays and objects, innermost first, and what has to come. -/
structure Machine where
  stack : List Open
  expects : Expectation

namespace Machine

/-- A value is complete: it joins the innermost open array or object, or it is the document. -/
def deliver (j : Json) : List Open → Machine
  | [] => ⟨[], .nothing j⟩
  | .array items :: outer => ⟨.array (j :: items) :: outer, .separator⟩
  | .object fields key :: outer => ⟨.object ((key, j) :: fields) "" :: outer, .separator⟩

def step (m : Machine) (t : Token) : Option Machine :=
  match m.expects, t, m.stack with
  | .value _, .mark '[', stack => some ⟨.array [] :: stack, .value true⟩
  | .value _, .mark '{', stack => some ⟨.object [] "" :: stack, .key true⟩
  | .value true, .mark ']', .array items :: outer => some (deliver (.array items.reverse) outer)
  | .value _, .text s, stack => some (deliver (.string s) stack)
  | .value _, .word cs, stack => (ofWord? cs).map (deliver · stack)
  | .key true, .mark '}', .object fields _ :: outer => some (deliver (.object fields.reverse) outer)
  | .key _, .text s, .object fields _ :: outer => some ⟨.object fields s :: outer, .colon⟩
  | .colon, .mark ':', stack => some ⟨stack, .value false⟩
  | .separator, .mark ',', .array items :: outer => some ⟨.array items :: outer, .value false⟩
  | .separator, .mark ',', .object fields key :: outer => some ⟨.object fields key :: outer, .key false⟩
  | .separator, .mark ']', .array items :: outer => some (deliver (.array items.reverse) outer)
  | .separator, .mark '}', .object fields _ :: outer => some (deliver (.object fields.reverse) outer)
  | _, _, _ => none

def run (m : Machine) : List Token → Option Machine
  | [] => some m
  | t :: rest => (m.step t).bind (run · rest)

end Machine

/-- **Reads a JSON text**; the objects of the document have their fields sorted, the last of several with one key. -/
def parse? (s : String) : Option Json := do
  let m ← Machine.run ⟨[], .value false⟩ (← tokens [] s.toList)
  match m.expects with
  | .nothing j => return j.sorted
  | _ => none

end Json

end DeployInventory
