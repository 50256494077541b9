import DeployInventory.Number.Shortest
import Mathlib.Algebra.Order.Field.Power
import Mathlib.Data.Rat.Cast.Order
import Mathlib.Order.Monotone.Basic
import Mathlib.Tactic.FieldSimp
import Mathlib.Tactic.Linarith
import Mathlib.Tactic.Ring
/-!
# Proofs.Number.Shortest — a double is told by its shortest decimal

Without its sign a double is numbered by its bits, its `magnitude`. The intervals of the reals that read as one double
lie side by side: each ends where the next one starts (`readingInterval_low`, `readingInterval_high`), and of two that
meet only one has its ends, since the significands of neighbours are not both even. So a real in the interval of a
double lies in no other (`magnitude_eq_of_inside`). The shortest decimal lies in the interval (`inside_shortest`): at
the latest a grid of 10^-1074 has a point there, the double itself.
-/
namespace DeployInventory

theorem twoTo_succ (n : Nat) : twoTo (n + 1) = 2 * twoTo n := Nat.pow_succ'

theorem tenTo_pos (n : Nat) : 0 < tenTo n := Nat.pow_pos (by decide)

theorem tenTo_eq (n : Nat) : tenTo n = twoTo n * Nat.pow 5 n := Nat.mul_pow 2 5 n

/-- The number that a decimal stands for. -/
def Decimal.value (d : Decimal) : ℚ := d.digits * 10 ^ d.exponent

namespace Binary64

variable {x y : Binary64} {m n : Nat}

/-- **The bits of a double without its sign.** -/
def magnitude (x : Binary64) : Nat := x.bits.toNat % twoTo 63

/-! ## Magnitudes in a row -/

def scaleAt (m : Nat) : Nat := m / twoTo 52 - 1

def significandAt (m : Nat) : Nat := if m / twoTo 52 = 0 then m % twoTo 52 else twoTo 52 + m % twoTo 52

def unitsAt (m : Nat) : Nat := significandAt m * twoTo (scaleAt m)

/-- The middle between a magnitude and the next one, in quarters of the smallest unit. -/
def middleAt (m : Nat) : Nat := 4 * unitsAt m + 2 * twoTo (scaleAt m)

theorem twoTo_52 : twoTo 52 = 4503599627370496 := rfl

theorem exponentField_eq (x : Binary64) : x.exponentField = x.magnitude / twoTo 52 := by
  have h63 : twoTo 63 = 9223372036854775808 := rfl
  have h11 : twoTo 11 = 2048 := rfl
  rw [exponentField, magnitude, twoTo_52, h63, h11]
  omega

theorem fraction_eq (x : Binary64) : x.fraction = x.magnitude % twoTo 52 := by
  have h63 : twoTo 63 = 9223372036854775808 := rfl
  rw [fraction, magnitude, twoTo_52, h63]
  omega

theorem scale_eq (x : Binary64) : x.scale = scaleAt x.magnitude := by
  rw [scale, exponentField_eq, scaleAt]

theorem significand_eq (x : Binary64) : x.significand = significandAt x.magnitude := by
  rw [significand, exponentField_eq, fraction_eq, significandAt]

theorem units_eq (x : Binary64) : x.units = unitsAt x.magnitude := by
  rw [units, significand_eq, scale_eq, unitsAt]

/-- **From one magnitude to the next** it is one unit of the scale. -/
theorem unitsAt_succ (m : Nat) : unitsAt (m + 1) = unitsAt m + twoTo (scaleAt m) := by
  by_cases hcarry : m % twoTo 52 + 1 < twoTo 52
  · have hdiv : (m + 1) / twoTo 52 = m / twoTo 52 := by rw [twoTo_52] at *; omega
    have hmod : (m + 1) % twoTo 52 = m % twoTo 52 + 1 := by rw [twoTo_52] at *; omega
    have hscale : scaleAt (m + 1) = scaleAt m := by rw [scaleAt, scaleAt, hdiv]
    have hsignificand : significandAt (m + 1) = significandAt m + 1 := by
      rw [significandAt, significandAt, hdiv, hmod]
      split <;> rfl
    rw [unitsAt, unitsAt, hscale, hsignificand, Nat.succ_mul]
  · -- The significand is all ones: the next magnitude starts the next scale.
    have hdiv : (m + 1) / twoTo 52 = m / twoTo 52 + 1 := by rw [twoTo_52] at *; omega
    have hmod : (m + 1) % twoTo 52 = 0 := by rw [twoTo_52] at *; omega
    have hnext : unitsAt (m + 1) = twoTo 52 * twoTo (m / twoTo 52) := by
      rw [unitsAt, significandAt, scaleAt, hdiv, hmod, if_neg (Nat.succ_ne_zero _), Nat.add_sub_cancel, Nat.add_zero]
    have hones : m % twoTo 52 = twoTo 52 - 1 := by rw [twoTo_52] at *; omega
    have hpos : 0 < twoTo 52 := twoTo_pos 52
    rw [hnext, unitsAt, significandAt, scaleAt, hones]
    cases m / twoTo 52 with
    | zero =>
      rw [if_pos rfl, Nat.zero_sub, ← Nat.succ_mul, Nat.succ_eq_add_one, Nat.sub_add_cancel hpos]
    | succ k =>
      have hsum : twoTo 52 + (twoTo 52 - 1) + 1 = 2 * twoTo 52 := by omega
      rw [if_neg (Nat.succ_ne_zero k), Nat.add_sub_cancel, ← Nat.succ_mul, Nat.succ_eq_add_one, hsum, twoTo_succ k]
      ring

theorem middleAt_strictMono : StrictMono middleAt := by
  refine strictMono_nat_of_lt_succ fun m => ?_
  have hpos : 0 < twoTo (scaleAt m) := twoTo_pos _
  rw [middleAt, middleAt, unitsAt_succ]
  omega

theorem significandAt_mod_two (m : Nat) : significandAt m % 2 = m % 2 := by
  rw [significandAt, twoTo_52]
  split <;> omega

/-! ## Reading intervals side by side -/

theorem readingInterval_high (hx : x.magnitude = m + 1) : x.readingInterval.high = middleAt (m + 1) := by
  rw [readingInterval, units_eq, scale_eq, hx]
  rfl

/-- **An interval starts where the one before it ends.** -/
theorem readingInterval_low (hx : x.magnitude = m + 1) : x.readingInterval.low = middleAt m := by
  have hunits := unitsAt_succ m
  have hlow : x.readingInterval.low = 4 * unitsAt (m + 1) -
      (if (m + 1) % twoTo 52 = 0 && 1 < (m + 1) / twoTo 52 then twoTo (scaleAt (m + 1))
        else 2 * twoTo (scaleAt (m + 1))) := by
    rw [readingInterval, units_eq, scale_eq, fraction_eq, exponentField_eq, hx]
  rw [hlow, middleAt, hunits]
  split
  · rename_i hfirst
    simp only [Bool.and_eq_true, decide_eq_true_eq] at hfirst
    have hscale : scaleAt (m + 1) = scaleAt m + 1 := by rw [scaleAt, scaleAt, twoTo_52] at *; omega
    rw [hscale, twoTo_succ]
    omega
  · rename_i hfirst
    simp only [Bool.and_eq_true, decide_eq_true_eq, not_and] at hfirst
    have hscale : scaleAt (m + 1) = scaleAt m := by rw [scaleAt, scaleAt, twoTo_52] at *; omega
    rw [hscale]
    omega

theorem readingInterval_closed (hx : x.magnitude = m + 1) :
    x.readingInterval.closed = decide ((m + 1) % 2 = 0) := by
  rw [readingInterval, significand_eq, significandAt_mod_two, hx]
  rfl

namespace ReadingInterval

/-- **Whether a real lies in an interval.** -/
def Inside (i : ReadingInterval) (v : ℚ) : Prop :=
  i.low ≤ v ∧ v ≤ i.high ∧ (i.closed = false → i.low < v ∧ v < i.high)

variable {i : ReadingInterval} {v : ℚ} {point step digits : Nat}

theorem inside_of_holds (h : i.holds point = true) : i.Inside point := by
  unfold holds at h
  cases hclosed : i.closed with
  | true =>
    simp only [hclosed, if_true, Bool.and_eq_true, decide_eq_true_eq] at h
    exact ⟨Nat.cast_le.2 h.1, Nat.cast_le.2 h.2, by simp [hclosed]⟩
  | false =>
    simp only [hclosed, Bool.false_eq_true, if_false, Bool.and_eq_true, decide_eq_true_eq] at h
    exact ⟨Nat.cast_le.2 h.1.le, Nat.cast_le.2 h.2.le, fun _ => ⟨Nat.cast_lt.2 h.1, Nat.cast_lt.2 h.2⟩⟩

theorem Inside.of_refine {factor : Nat} (hfactor : 0 < factor) (h : (i.refine factor).Inside v) :
    i.Inside (v / factor) := by
  have hpos : (0 : ℚ) < factor := Nat.cast_pos.2 hfactor
  obtain ⟨hlow, hhigh, hopen⟩ := h
  simp only [refine, Nat.cast_mul] at hlow hhigh hopen
  refine ⟨(le_div_iff₀ hpos).2 hlow, (div_le_iff₀ hpos).2 hhigh, fun hclosed => ?_⟩
  exact ⟨(lt_div_iff₀ hpos).2 (hopen hclosed).1, (div_lt_iff₀ hpos).2 (hopen hclosed).2⟩

/-- The point that is taken of a grid lies in the interval. -/
theorem holds_of_gridPoint? (h : i.gridPoint? step = some digits) : i.holds (digits * step) = true := by
  unfold gridPoint? at h
  dsimp only at h
  split at h
  · rename_i hbelow habove
    have hparity : i.value / step % 2 = 0 ∨ i.value / step % 2 = 1 := by omega
    split at h
    · cases h
      exact hbelow
    · split at h
      · cases h
        exact habove
      · cases h
        rcases hparity with hparity | hparity
        · rwa [hparity]
        · rwa [hparity]
  · rename_i hbelow habove
    cases h
    exact hbelow
  · rename_i hbelow habove
    cases h
    exact habove
  · cases h

/-- A grid through the double has a point in the interval. -/
theorem isSome_gridPoint? (hstep : step ∣ i.value) (hlow : i.low < i.value) (hhigh : i.value < i.high) :
    (i.gridPoint? step).isSome = true := by
  have hholds : i.holds (i.value / step * step) = true := by
    rw [Nat.div_mul_cancel hstep, holds]
    split <;> simp [hlow, hhigh, hlow.le, hhigh.le]
  unfold gridPoint?
  simp only [hholds]
  cases i.holds ((i.value / step + 1) * step) with
  | true =>
    dsimp only
    split
    · rfl
    · split <;> rfl
  | false => rfl

end ReadingInterval

open ReadingInterval (Inside)

/-- **A real in the interval of a double lies in no other.** -/
theorem magnitude_le_of_inside {v : ℚ} (hx : 0 < x.magnitude) (hy : 0 < y.magnitude)
    (hvx : x.readingInterval.Inside v) (hvy : y.readingInterval.Inside v) : y.magnitude ≤ x.magnitude := by
  by_contra hlt
  obtain ⟨m, hm⟩ := Nat.exists_eq_succ_of_ne_zero hx.ne'
  obtain ⟨n, hn⟩ := Nat.exists_eq_succ_of_ne_zero hy.ne'
  obtain ⟨-, hhigh, hxopen⟩ := hvx
  obtain ⟨hlow, -, hyopen⟩ := hvy
  rw [readingInterval_high hm, readingInterval_closed hm] at *
  rw [readingInterval_low hn, readingInterval_closed hn] at *
  have hmn : m + 1 ≤ n := by omega
  have hmiddles : (middleAt (m + 1) : ℚ) ≤ middleAt n := Nat.cast_le.2 (middleAt_strictMono.monotone hmn)
  have hmeet : middleAt (m + 1) = middleAt n := by
    have hle : (middleAt n : ℚ) ≤ middleAt (m + 1) := hlow.trans hhigh
    exact Nat.cast_injective (le_antisymm hmiddles hle)
  have hnext : m + 1 = n := middleAt_strictMono.injective hmeet
  -- Two neighbours are not both even, so one of the intervals has no ends.
  rcases Nat.mod_two_eq_zero_or_one (m + 1) with heven | hodd
  · have hopen := (hyopen (by simp; omega)).1
    linarith
  · have hopen := (hxopen (by simp [hodd])).2
    linarith

theorem magnitude_eq_of_inside {v : ℚ} (hx : 0 < x.magnitude) (hy : 0 < y.magnitude)
    (hvx : x.readingInterval.Inside v) (hvy : y.readingInterval.Inside v) : x.magnitude = y.magnitude :=
  le_antisymm (magnitude_le_of_inside hy hx hvy hvx) (magnitude_le_of_inside hx hy hvx hvy)

/-! ## Grids -/

variable {i : ReadingInterval}

/-- The point taken of the grid of a power of ten. -/
def grid? (i : ReadingInterval) (exponent : Int) : Option Nat :=
  if 0 ≤ exponent then i.gridPoint? (quartersOfOne * tenTo exponent.toNat)
  else (i.refine (tenTo (-exponent).toNat)).gridPoint? quartersOfOne

theorem coarsest_succ (steps : Nat) (exponent : Int) : coarsest i (steps + 1) exponent =
    ((grid? i exponent).map fun digits => ⟨digits, exponent⟩).getD (coarsest i steps (exponent - 1)) := by
  rw [coarsest, ← grid?]
  cases grid? i exponent <;> rfl

/-- The reals of an interval are measured in quarters of the smallest unit. -/
theorem inside_of_grid? {exponent : Int} {digits : Nat} (h : grid? i exponent = some digits) :
    i.Inside (quartersOfOne * Decimal.value ⟨digits, exponent⟩) := by
  unfold grid? at h
  split at h
  · rename_i hexponent
    obtain ⟨n, rfl⟩ := Int.eq_ofNat_of_zero_le hexponent
    have hinside := ReadingInterval.inside_of_holds (ReadingInterval.holds_of_gridPoint? h)
    have hvalue : ((digits * (quartersOfOne * tenTo n) : Nat) : ℚ) =
        quartersOfOne * Decimal.value ⟨digits, (n : Int)⟩ := by
      simp only [Decimal.value, tenTo, Nat.cast_mul, Nat.pow_eq, Nat.cast_pow, Nat.cast_ofNat, zpow_natCast]
      ring
    rwa [Int.toNat_natCast, hvalue] at hinside
  · rename_i hexponent
    obtain ⟨n, hn⟩ := Int.eq_ofNat_of_zero_le (a := -exponent) (by omega)
    obtain rfl : exponent = -(n : Int) := by omega
    have hholds := ReadingInterval.holds_of_gridPoint? h
    rw [neg_neg, Int.toNat_natCast] at hholds
    have hinside := (ReadingInterval.inside_of_holds hholds).of_refine (tenTo_pos n)
    have hvalue : ((digits * quartersOfOne : Nat) : ℚ) / (tenTo n : Nat) =
        quartersOfOne * Decimal.value ⟨digits, -(n : Int)⟩ := by
      simp only [Decimal.value, tenTo, Nat.cast_mul, Nat.pow_eq, Nat.cast_pow, Nat.cast_ofNat, zpow_neg, zpow_natCast]
      ring
    rwa [hvalue] at hinside

/-- **The first grid with a point in the interval gives a decimal in it.** -/
theorem inside_coarsest : ∀ {steps : Nat} {exponent : Int},
    (∃ k < steps, (grid? i (exponent - (k : Nat))).isSome = true) →
    i.Inside (quartersOfOne * (coarsest i steps exponent).value)
  | 0, _, ⟨k, hk, _⟩ => absurd hk (Nat.not_lt_zero k)
  | steps + 1, exponent, ⟨k, hk, hsome⟩ => by
    rw [coarsest_succ]
    cases hgrid : grid? i exponent with
    | some digits => exact inside_of_grid? hgrid
    | none =>
      refine inside_coarsest ?_
      cases k with
      | zero =>
        rw [Int.natCast_zero, Int.sub_zero, hgrid] at hsome
        cases hsome
      | succ k =>
        refine ⟨k, by omega, ?_⟩
        rwa [Int.sub_sub, Int.add_comm 1]

theorem magnitude_eq_zero_iff : x.magnitude = 0 ↔ x.isZero = true := by
  rw [isZero, exponentField_eq, fraction_eq, twoTo_52]
  simp
  omega

/-- On the grid of 10^-1074 lie all doubles. -/
theorem isSome_grid? (hx : 0 < x.magnitude) : (grid? x.readingInterval (-(1074 : Nat))).isSome = true := by
  obtain ⟨m, hm⟩ := Nat.exists_eq_succ_of_ne_zero hx.ne'
  have hpos := tenTo_pos 1074
  have hvalue : x.readingInterval.value = 4 * unitsAt (m + 1) := by rw [readingInterval, units_eq, hm]
  have hlow : x.readingInterval.low < x.readingInterval.value := by
    have hscale : 0 < twoTo (scaleAt m) := twoTo_pos _
    rw [readingInterval_low hm, hvalue, middleAt, unitsAt_succ]
    omega
  have hhigh : x.readingInterval.value < x.readingInterval.high := by
    have hscale : 0 < twoTo (scaleAt (m + 1)) := twoTo_pos _
    rw [readingInterval_high hm, hvalue, middleAt]
    omega
  rw [grid?, if_neg (by omega)]
  refine ReadingInterval.isSome_gridPoint? ?_ (Nat.mul_lt_mul_of_pos_right hlow hpos)
    (Nat.mul_lt_mul_of_pos_right hhigh hpos)
  have hquarters : quartersOfOne = 2 * (2 * twoTo 1074) := by rw [quartersOfOne, twoTo_succ 1075, twoTo_succ 1074]
  rw [neg_neg, Int.toNat_natCast, ReadingInterval.refine, hvalue, hquarters, tenTo_eq]
  have hdvd : ∀ a b u : Nat, 2 * (2 * a) ∣ 4 * u * (a * b) := fun a b u => ⟨u * b, by ring⟩
  exact hdvd _ _ _

/-- **The shortest decimal of a double lies in its interval.** -/
theorem inside_shortest (hx : 0 < x.magnitude) : x.readingInterval.Inside (quartersOfOne * x.shortest.value) := by
  have hzero : x.isZero = false := by
    rw [← Bool.not_eq_true, ← magnitude_eq_zero_iff]
    exact hx.ne'
  have hexponent : (309 : Int) - (1383 : Nat) = -(1074 : Nat) := by norm_num
  have hsome := isSome_grid? hx
  rw [← hexponent] at hsome
  have hgrid : ∃ k < 1400, (grid? x.readingInterval (309 - (k : Nat))).isSome = true := ⟨1383, by norm_num, hsome⟩
  have hinside := inside_coarsest hgrid
  rw [shortest, hzero]
  exact hinside

theorem shortest_value_pos (hx : 0 < x.magnitude) : 0 < x.shortest.value := by
  obtain ⟨m, hm⟩ := Nat.exists_eq_succ_of_ne_zero hx.ne'
  have hlow : (middleAt m : ℚ) ≤ quartersOfOne * x.shortest.value := by
    have hinside := (inside_shortest hx).1
    rwa [readingInterval_low hm] at hinside
  have hmiddle : (0 : ℚ) < middleAt m := by
    have hscale : 0 < twoTo (scaleAt m) := twoTo_pos _
    exact Nat.cast_pos.2 (by rw [middleAt]; omega)
  have hquarters : (0 : ℚ) < quartersOfOne := Nat.cast_pos.2 (twoTo_pos 1076)
  exact (mul_pos_iff_of_pos_left hquarters).1 (hmiddle.trans_le hlow)

/-- **Doubles with shortest decimals of one value have one magnitude.** -/
theorem magnitude_eq_of_shortest (h : x.shortest.value = y.shortest.value) : x.magnitude = y.magnitude := by
  have hzero : ∀ {z : Binary64}, z.magnitude = 0 → z.shortest.value = 0 := fun {z} hz => by
    rw [shortest, if_pos (magnitude_eq_zero_iff.1 hz), Decimal.value]
    simp
  rcases Nat.eq_zero_or_pos x.magnitude with hx | hx
  · rcases Nat.eq_zero_or_pos y.magnitude with hy | hy
    · rw [hx, hy]
    · have hpos := shortest_value_pos hy
      rw [← h, hzero hx] at hpos
      exact absurd hpos (lt_irrefl 0)
  · rcases Nat.eq_zero_or_pos y.magnitude with hy | hy
    · have hpos := shortest_value_pos hx
      rw [h, hzero hy] at hpos
      exact absurd hpos (lt_irrefl 0)
    · have hvx := inside_shortest hx
      rw [h] at hvx
      exact magnitude_eq_of_inside hx hy hvx (inside_shortest hy)

/-- A double is its sign and its magnitude. -/
theorem ext_magnitude (hsign : x.negative = y.negative) (h : x.magnitude = y.magnitude) : x = y := by
  have hx := x.bits.toNat_lt
  have hy := y.bits.toNat_lt
  have h63 : twoTo 63 = 9223372036854775808 := rfl
  rw [negative, negative, decide_eq_decide, h63] at hsign
  rw [magnitude, magnitude, h63] at h
  have hbits : x.bits.toNat = y.bits.toNat := by omega
  cases x
  cases y
  exact congrArg mk (UInt64.toNat_inj.1 hbits)

end Binary64
end DeployInventory
