import DeployInventory.Text.CharTable
/-!
# Blank — white space and trimming

White space is the Unicode property White_Space. Trimming drops it at both ends of a text.
-/
namespace DeployInventory

def blankTable : CharTable :=
  [(0x9, 0xd), (0x20, 0x20), (0x85, 0x85), (0xa0, 0xa0), (0x1680, 0x1680), (0x2000, 0x200a), (0x2028, 0x2029),
   (0x202f, 0x202f), (0x205f, 0x205f), (0x3000, 0x3000)]

def isBlank (c : Char) : Bool := blankTable.has c

/-- **A text without white space at its ends.** -/
def trimChars (s : List Char) : List Char := ((s.dropWhile isBlank).reverse.dropWhile isBlank).reverse

end DeployInventory
