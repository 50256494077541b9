import DeployInventory.Number.Binary64
/-!
# Shortest — the shortest decimal that reads back as a double

Every real number between the middles to the two neighbouring doubles reads as the double between them; the middles
themselves do when its significand is even. `shortest` looks for the coarsest decimal grid with a point in that
interval and takes of the points beside the double the nearer one.
-/
namespace DeployInventory

/-- A decimal: `digits · 10^exponent`. -/
structure Decimal where
  digits : Nat
  exponent : Int
deriving DecidableEq, Repr

namespace Binary64

/-- The reals that read as one double, all three numbers in quarters of the smallest unit, and whether the ends
belong to them. -/
structure ReadingInterval where
  low : Nat
  value : Nat
  high : Nat
  closed : Bool

/-- The interval of a finite double. Below a power of two the doubles lie twice as close. -/
def readingInterval (x : Binary64) : ReadingInterval :=
  let quarter := twoTo x.scale
  { low := 4 * x.units - (if x.fraction = 0 && 1 < x.exponentField then quarter else 2 * quarter)
    value := 4 * x.units
    high := 4 * x.units + 2 * quarter
    closed := x.significand % 2 == 0 }

namespace ReadingInterval

def holds (i : ReadingInterval) (point : Nat) : Bool :=
  if i.closed then decide (i.low ≤ point) && decide (point ≤ i.high)
  else decide (i.low < point) && decide (point < i.high)

/-- The multiple of `step` in the interval that is nearest to the value, if there is one. -/
def gridPoint? (i : ReadingInterval) (step : Nat) : Option Nat :=
  let below := i.value / step
  match i.holds (below * step), i.holds ((below + 1) * step) with
  | true, true =>
    if 2 * i.value < (2 * below + 1) * step then some below
    else if (2 * below + 1) * step < 2 * i.value then some (below + 1)
    else some (below + below % 2)
  | true, false => some below
  | false, true => some (below + 1)
  | false, false => none

/-- The interval measured in a unit `factor` times as small. -/
def refine (i : ReadingInterval) (factor : Nat) : ReadingInterval :=
  { i with low := i.low * factor, value := i.value * factor, high := i.high * factor }

end ReadingInterval

/-- Four times 2^1074: one, in quarters of the smallest unit. -/
def quartersOfOne : Nat := twoTo 1076

/-- The first grid with a point in the interval, from the grid of `10^exponent` down, at most `steps` grids. -/
def coarsest (i : ReadingInterval) : (steps : Nat) → (exponent : Int) → Decimal
  | 0, _ => ⟨0, 0⟩
  | steps + 1, exponent =>
    let point :=
      if 0 ≤ exponent then i.gridPoint? (quartersOfOne * tenTo exponent.toNat)
      else (i.refine (tenTo (-exponent).toNat)).gridPoint? quartersOfOne
    match point with
    | some digits => ⟨digits, exponent⟩
    | none => coarsest i steps (exponent - 1)

/-- **The shortest decimal that reads back as the double**, its sign aside: of the decimals with the fewest digits the
nearest one. -/
def shortest (x : Binary64) : Decimal :=
  if x.isZero then ⟨0, 0⟩ else coarsest x.readingInterval 1400 309

end Binary64

end DeployInventory
