/-!
# Number.Power — powers of two and ten

The sizes of machine words and the steps of decimal grids.
-/
namespace DeployInventory

def twoTo (n : Nat) : Nat := Nat.pow 2 n

def tenTo (n : Nat) : Nat := Nat.pow 10 n

theorem twoTo_pos (n : Nat) : 0 < twoTo n := Nat.pow_pos (by decide)

end DeployInventory
