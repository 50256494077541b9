import DeployInventory.Number.Digits
/-!
# SessionId — ids of editing sessions

A session id is a number of 128 bits, written as thirty-two hexadecimal digits in five groups.
-/
namespace DeployInventory

/-- **The id of an editing session.** -/
structure SessionId where
  bits : BitVec 128
deriving DecidableEq, Repr

namespace SessionId

/-- **The id that random bits make**: they are kept but for those that mark it as random. -/
def ofRandom (bits : BitVec 128) : SessionId :=
  ⟨(bits &&& 0xffffffffffff0fff3fffffffffffffff#128) ||| 0x00000000000040008000000000000000#128⟩

def hexChars : (count : Nat) → Nat → List Char
  | 0, _ => []
  | count + 1, n => hexChars count (n / 16) ++ [hexDigit n]

def groups (ds : List Char) : List Char :=
  ds.take 8 ++ '-' :: (ds.drop 8).take 4 ++ '-' :: (ds.drop 12).take 4 ++ '-' :: (ds.drop 16).take 4 ++
    '-' :: ds.drop 20

/-- **The id as text**: groups of 8, 4, 4, 4 and 12 digits in lower case. -/
def text (s : SessionId) : String := .ofList (groups (hexChars 32 s.bits.toNat))

def ofDigits? (ds : List Char) : Option SessionId :=
  if ds.length = 32 then (hexNumber? ds).map fun n => ⟨BitVec.ofNat 128 n⟩ else none

def ofGroups? (cs : List Char) : Option SessionId :=
  let ds := cs.take 8 ++ (cs.drop 9).take 4 ++ (cs.drop 14).take 4 ++ (cs.drop 19).take 4 ++ cs.drop 24
  if cs = groups ds then ofDigits? ds else none

/-- **Reads an id** in any of its forms: groups, digits alone, groups in braces, groups after `urn:uuid:`. -/
def parse? (s : String) : Option SessionId :=
  let cs := s.toList
  let wrapped := cs.drop 1
  if cs.length = 32 then ofDigits? cs
  else if cs.length = 38 ∧ cs.head? = some '{' ∧ wrapped.getLast? = some '}' then ofGroups? wrapped.dropLast
  else if cs.take 9 = "urn:uuid:".toList then ofGroups? (cs.drop 9)
  else ofGroups? cs

end SessionId

end DeployInventory
