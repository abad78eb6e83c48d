import CompiledCode.Power

/-!
Binary floating-point numbers of 64 bits, as bit patterns with exact arithmetic on naturals.
A finite number is `significand * 2 ^ exponent` with its sign, and a rational is rounded to the
nearest number, where a tie goes to the even significand.
-/

namespace CompiledCode

/-- A double-precision number: a sign bit, an exponent field of 11 bits, a fraction of 52 bits. -/
structure Binary64 where
  bits : UInt64
  deriving DecidableEq, Repr

namespace Binary64

def negative (x : Binary64) : Bool := 2 ^ 63 ≤ x.bits.toNat

def exponentField (x : Binary64) : Nat := x.bits.toNat / 2 ^ 52 % 2 ^ 11

def fraction (x : Binary64) : Nat := x.bits.toNat % 2 ^ 52

/-- The number with the sign and with the magnitude bits, which are below 2^63. -/
def ofMagnitude (negative : Bool) (magnitude : Nat) : Binary64 :=
  ⟨.ofNat ((if negative then 2 ^ 63 else 0) + magnitude)⟩

def infinity (negative : Bool) : Binary64 := ofMagnitude negative (2047 * 2 ^ 52)

def zero (negative : Bool) : Binary64 := ofMagnitude negative 0

def nan : Binary64 := ofMagnitude false (2047 * 2 ^ 52 + 2 ^ 51)

def isFinite (x : Binary64) : Bool := x.exponentField ≠ 2047

def isNaN (x : Binary64) : Bool := x.exponentField = 2047 ∧ x.fraction ≠ 0

def isInfinite (x : Binary64) : Bool := x.exponentField = 2047 ∧ x.fraction = 0

def isZero (x : Binary64) : Bool := x.exponentField = 0 ∧ x.fraction = 0

/-- The integer significand of a finite number; a normal number has a leading one bit. -/
def significand (x : Binary64) : Nat :=
  if x.exponentField = 0 then x.fraction else 2 ^ 52 + x.fraction

/-- The power of two that the significand is multiplied by. -/
def exponent (x : Binary64) : Int := (max x.exponentField 1 : Nat) - 1075

/-- The quotient rounded to the nearest natural number; a tie goes to the even one. -/
def roundQuotient (numerator denominator : Nat) : Nat :=
  let quotient := numerator / denominator
  let twice := 2 * (numerator % denominator)
  if twice < denominator ∨ (twice = denominator ∧ quotient % 2 = 0) then quotient
  else quotient + 1

/-- The largest `e` with `2 ^ e ≤ numerator / denominator`, for a positive quotient. -/
def floorLog2 (numerator denominator : Nat) : Int :=
  let estimate : Int := (Nat.log2 numerator : Int) - Nat.log2 denominator
  if denominator * 2 ^ estimate.toNat ≤ numerator * 2 ^ (-estimate).toNat then estimate
  else estimate - 1

/-- The number nearest to the quotient, with the sign; too large a quotient gives infinity. -/
def nearest (negative : Bool) (numerator denominator : Nat) : Binary64 :=
  if numerator = 0 then zero negative
  else
    let unit : Int := max (floorLog2 numerator denominator - 52) (-1074)
    let rounded := roundQuotient (numerator * 2 ^ (-unit).toNat) (denominator * 2 ^ unit.toNat)
    let magnitude := (unit + 1074).toNat * 2 ^ 52 + rounded
    if magnitude < 2047 * 2 ^ 52 then ofMagnitude negative magnitude else infinity negative

/-- The product with `2 ^ power`, rounded once; infinities and NaN stay as they are. -/
def timesPowerOfTwo (x : Binary64) (power : Int) : Binary64 :=
  if x.isFinite then
    let scale := x.exponent + power
    nearest x.negative (x.significand * 2 ^ scale.toNat) (2 ^ (-scale).toNat)
  else x

end Binary64

end CompiledCode
