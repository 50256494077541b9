/-!
# ByteRange — ranges of characters as ranges of bytes

In UTF-8 a character is a sequence of one to four bytes. `byteSequences` cuts a range of code points so that each piece
is written by all sequences that take every byte from a range of its own.
-/
namespace DeployInventory

/-- The bytes from one to another. -/
structure ByteRange where
  first : UInt8
  last : UInt8
deriving DecidableEq, Repr

def utf8Bytes (code : Nat) : List UInt8 := String.utf8EncodeChar (Char.ofNat code)

/-- Where a range of code points has to be cut first: where the number of bytes changes, or where a byte would not run
through all its values. -/
def cut? (first last : Nat) : Option Nat :=
  match [0x80, 0x800, 0x10000].find? fun n => decide (first < n) && decide (n ≤ last) with
  | some n => some n
  | none =>
    if last < 0x80 then none
    else [64, 4096, 262144].findSome? fun n =>
      if first / n = last / n then none
      else if first % n ≠ 0 then some ((first / n + 1) * n)
      else if last % n ≠ n - 1 then some (last / n * n)
      else none

def byteRow (first last : Nat) : List ByteRange :=
  List.zipWith (fun a b => ⟨a, b⟩) (utf8Bytes first) (utf8Bytes last)

/-- **The byte sequences of a range of code points**, in ascending order. -/
def byteSequences (first last : Nat) : List (List ByteRange) :=
  match cut? first last with
  | none => [byteRow first last]
  | some n =>
    if first < n ∧ n ≤ last then byteSequences first (n - 1) ++ byteSequences n last
    else [byteRow first last]
termination_by last - first

end DeployInventory
