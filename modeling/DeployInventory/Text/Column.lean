/-!
# Text.Column — texts in columns

A text that is shorter than its column is filled up with blanks, a longer one stays whole. Characters are counted, not
bytes.
-/
namespace DeployInventory

def leftAligned (width : Nat) (cs : List Char) : List Char := cs ++ List.replicate (width - cs.length) ' '

def rightAligned (width : Nat) (cs : List Char) : List Char := List.replicate (width - cs.length) ' ' ++ cs

end DeployInventory
