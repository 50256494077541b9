/-!
# Text.Split — a text cut at a mark

The parts around the marks, empty ones included; a text without the mark is one part.
-/
namespace DeployInventory

/-- **The parts of a text between the occurrences of a character**; there is at least one. -/
def splitAtChar (mark : Char) : List Char → List (List Char)
  | [] => [[]]
  | c :: rest =>
    if c = mark then [] :: splitAtChar mark rest
    else match splitAtChar mark rest with
      | [] => [[c]]
      | part :: parts => (c :: part) :: parts

end DeployInventory
