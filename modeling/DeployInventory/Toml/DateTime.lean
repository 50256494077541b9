import DeployInventory.Number.Digits
/-!
# Toml.DateTime — dates and times of day

A date, a time of day, or both, then also with an offset from universal time. Seconds may be left out, and fractions of
a second count to nine places. The text of a date-time is canonical: `T` and `Z` in upper case, no needless zeros.
-/
namespace DeployInventory

namespace Toml

/-- A day of the calendar. -/
structure Date where
  year : Nat
  month : Nat
  day : Nat
deriving DecidableEq, Repr

/-- A time of day. -/
structure TimeOfDay where
  hour : Nat
  minute : Nat
  second : Nat
  nanosecond : Nat
deriving DecidableEq, Repr

/-- A distance from universal time. -/
inductive Offset where
  | universal
  | minutes (n : Int)
deriving DecidableEq, Repr

/-- **A date, a time of day or both.** -/
inductive DateTime where
  | date (d : Date)
  | time (t : TimeOfDay)
  | moment (d : Date) (t : TimeOfDay) (offset : Option Offset)
deriving DecidableEq, Repr

/-- A number with zeros before it, to a least width. -/
def padded (width n : Nat) : List Char :=
  List.replicate (width - (decimalChars n).length) '0' ++ decimalChars n

namespace Date

def isLeapYear (year : Nat) : Bool := year % 4 == 0 && (year % 100 != 0 || year % 400 == 0)

def daysOf (year month : Nat) : Nat :=
  if month = 2 then if isLeapYear year then 29 else 28
  else if month = 4 ∨ month = 6 ∨ month = 9 ∨ month = 11 then 30
  else 31

def chars (d : Date) : List Char := padded 4 d.year ++ '-' :: padded 2 d.month ++ '-' :: padded 2 d.day

def number? (ds : List Char) : Option Nat := if ds.all Char.isDigit then some (decimalValue ds) else none

/-- Whether a text has the shape of a date: ten characters, digits but for two hyphens. -/
def hasShape : List Char → Bool
  | [y1, y2, y3, y4, '-', m1, m2, '-', d1, d2] => [y1, y2, y3, y4, m1, m2, d1, d2].all Char.isDigit
  | _ => false

def parse? : List Char → Option Date
  | [y1, y2, y3, y4, '-', m1, m2, '-', d1, d2] => do
    let year ← number? [y1, y2, y3, y4]
    let month ← number? [m1, m2]
    let day ← number? [d1, d2]
    if 1 ≤ month ∧ month ≤ 12 ∧ 1 ≤ day ∧ day ≤ daysOf year month then some ⟨year, month, day⟩ else none
  | _ => none

end Date

namespace TimeOfDay

/-- The fraction of a second: up to nine places, zeros at the end left out. -/
def fractionChars (n : Nat) : List Char :=
  if n = 0 then [] else '.' :: ((padded 9 n).reverse.dropWhile (· == '0')).reverse

def chars (t : TimeOfDay) : List Char :=
  padded 2 t.hour ++ ':' :: padded 2 t.minute ++ ':' :: padded 2 t.second ++ fractionChars t.nanosecond

def clock? (h1 h2 m1 m2 : Char) : Option (Nat × Nat) := do
  let hour ← Date.number? [h1, h2]
  let minute ← Date.number? [m1, m2]
  if hour ≤ 23 ∧ minute ≤ 59 then some (hour, minute) else none

/-- The nanoseconds that the digits after the point write; those beyond the ninth do not count. -/
def nanoseconds (ds : List Char) : Nat := decimalValue ((ds ++ List.replicate 9 '0').take 9)

/-- Reads the time at the start of a text: the time and what follows it. A second may be a leap second. -/
def parse? : List Char → Option (TimeOfDay × List Char)
  | h1 :: h2 :: ':' :: m1 :: m2 :: ':' :: s1 :: s2 :: rest => do
    let (hour, minute) ← clock? h1 h2 m1 m2
    let second ← Date.number? [s1, s2]
    if 60 < second then none
    else match rest with
      | '.' :: after =>
        let ds := after.takeWhile Char.isDigit
        if ds.isEmpty then none
        else some (⟨hour, minute, second, nanoseconds ds⟩, after.dropWhile Char.isDigit)
      | _ => some (⟨hour, minute, second, 0⟩, rest)
  | h1 :: h2 :: ':' :: m1 :: m2 :: rest => do
    let (hour, minute) ← clock? h1 h2 m1 m2
    return (⟨hour, minute, 0, 0⟩, rest)
  | _ => none

end TimeOfDay

namespace Offset

def chars : Offset → List Char
  | universal => ['Z']
  | minutes n =>
    (if n < 0 then '-' else '+') :: padded 2 (n.natAbs / 60) ++ ':' :: padded 2 (n.natAbs % 60)

/-- Reads an offset; no text is no offset. -/
def parse? : List Char → Option (Option Offset)
  | [] => some none
  | ['Z'] | ['z'] => some (some universal)
  | ['+', h1, h2, ':', m1, m2] => do
    let (hour, minute) ← TimeOfDay.clock? h1 h2 m1 m2
    return some (minutes (hour * 60 + minute : Nat))
  | ['-', h1, h2, ':', m1, m2] => do
    let (hour, minute) ← TimeOfDay.clock? h1 h2 m1 m2
    return some (minutes (-(hour * 60 + minute : Nat)))
  | _ => none

end Offset

namespace DateTime

/-- **The canonical text.** -/
def text : DateTime → String
  | date d => .ofList d.chars
  | time t => .ofList t.chars
  | moment d t none => .ofList (d.chars ++ 'T' :: t.chars)
  | moment d t (some o) => .ofList (d.chars ++ 'T' :: t.chars ++ o.chars)

/-- Whether a character may stand between a date and a time. -/
def isJoint (c : Char) : Bool := c == 'T' || c == 't' || c == ' '

/-- **Reads a date-time.** -/
def parse? (cs : List Char) : Option DateTime :=
  match Date.parse? (cs.take 10), cs.drop 10 with
  | some d, [] => some (date d)
  | some d, c :: rest =>
    if isJoint c then do
      let (t, after) ← TimeOfDay.parse? rest
      return moment d t (← Offset.parse? after)
    else none
  | none, _ =>
    match TimeOfDay.parse? cs with
    | some (t, []) => some (time t)
    | _ => none

end DateTime

end Toml

end DeployInventory
