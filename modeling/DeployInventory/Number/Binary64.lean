import DeployInventory.Number.Power
/-!
# Binary64 — double-precision numbers by their bits

A double is its 64 bits: sign, eleven bits of exponent, fifty-two of fraction. All arithmetic is on natural numbers.
Every finite double is a whole number of units of 2^-1074, and `ofQuotient` gives the double nearest to a quotient,
halfway cases going to the even significand: the bits of the result are the scale and the rounded significand, added,
so that a significand rounded up to the next power of two carries into the exponent by itself.
-/
namespace DeployInventory

/-- A double-precision number. -/
structure Binary64 where
  bits : UInt64
deriving DecidableEq, Repr

namespace Binary64

def negative (x : Binary64) : Bool := decide (twoTo 63 ≤ x.bits.toNat)

def exponentField (x : Binary64) : Nat := x.bits.toNat / twoTo 52 % twoTo 11

def fraction (x : Binary64) : Nat := x.bits.toNat % twoTo 52

def isFinite (x : Binary64) : Bool := x.exponentField != 2047

/-- How many doublings of the smallest unit 2^-1074 the significand counts. -/
def scale (x : Binary64) : Nat := x.exponentField - 1

/-- The significand: the magnitude is `significand · 2^scale` units of 2^-1074. -/
def significand (x : Binary64) : Nat := if x.exponentField = 0 then x.fraction else twoTo 52 + x.fraction

/-- The magnitude of a finite double in units of 2^-1074. -/
def units (x : Binary64) : Nat := x.significand * twoTo x.scale

/-- The bits of an infinity, sign aside. -/
def infinityBits : Nat := 2047 * twoTo 52

def withSign (isNegative : Bool) (magnitude : Nat) : Binary64 :=
  ⟨UInt64.ofNat (if isNegative then twoTo 63 + magnitude else magnitude)⟩

def zero (isNegative : Bool) : Binary64 := withSign isNegative 0

def infinity (isNegative : Bool) : Binary64 := withSign isNegative infinityBits

def nan : Binary64 := ⟨UInt64.ofNat (infinityBits + twoTo 51)⟩

/-- The quotient rounded to the nearest natural number, a half to the even one. -/
def roundQuotient (num den : Nat) : Nat :=
  if 2 * (num % den) < den then num / den
  else if den < 2 * (num % den) then num / den + 1
  else num / den + num / den % 2

/-- The scale at which a number of units has a significand of at most 53 bits. -/
def scaleOf (magnitude : Nat) : Nat := magnitude.log2 + 1 - 53

/-- **The double nearest to a quotient**, halfway cases to the even significand, too large ones to infinity. -/
def ofQuotient (isNegative : Bool) (num den : Nat) : Binary64 :=
  let wide := num * twoTo 1074
  let s := scaleOf (wide / den)
  withSign isNegative (min (s * twoTo 52 + roundQuotient wide (den * twoTo s)) infinityBits)

def decimalLength (n : Nat) : Nat := (Nat.toDigits 10 n).length

/-- **The double nearest to `digits · 10^exponent`.** -/
def ofDecimal (isNegative : Bool) (digits : Nat) (exponent : Int) : Binary64 :=
  if digits = 0 then zero isNegative
  else if 310 < decimalLength digits + exponent then infinity isNegative
  else if decimalLength digits + exponent < -330 then zero isNegative
  else if 0 ≤ exponent then ofQuotient isNegative (digits * tenTo exponent.toNat) 1
  else ofQuotient isNegative digits (tenTo (-exponent).toNat)

def mul (x y : Binary64) : Binary64 :=
  ofQuotient (x.negative != y.negative) (x.units * y.units) (twoTo 1074 * twoTo 1074)

/-- The double nearest to a quotient of doubles, the second not zero. -/
def div (x y : Binary64) : Binary64 := ofQuotient (x.negative != y.negative) x.units y.units

/-- Whether the number is zero, of either sign. -/
def isZero (x : Binary64) : Bool := x.exponentField == 0 && x.fraction == 0

def neg (x : Binary64) : Binary64 := withSign (!x.negative) (x.bits.toNat % twoTo 63)

end Binary64

end DeployInventory
