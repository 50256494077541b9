/-!
# CharTable — sets of characters as lists of ranges

The tables of the modules beside this one list a character property of Unicode by ranges of code points.
-/
namespace DeployInventory

/-- A set of characters: ranges of code points, both ends included. -/
abbrev CharTable := List (Nat × Nat)

namespace CharTable

def has (t : CharTable) (c : Char) : Bool := t.any fun r => decide (r.1 ≤ c.toNat) && decide (c.toNat ≤ r.2)

end CharTable

end DeployInventory
