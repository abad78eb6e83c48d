import CompiledCode.Float.Literal

/-!
The shortest decimal that reads back as a floating-point number. Among decimals of one length the
one nearest to the number is taken, and of two equally near ones the larger.
-/

namespace CompiledCode

/-- The same number with a significand that has no zero at its end. -/
def Decimal.reduced (x : Decimal) : Decimal :=
  if 0 < x.significand ∧ x.significand % 10 = 0 then
    Decimal.reduced ⟨x.significand / 10, x.exponent + 1⟩
  else x
termination_by x.significand
decreasing_by omega

namespace Binary64

/-- A positive rational number. -/
structure Ratio where
  numerator : Nat
  denominator : Nat

/-- The product of a natural number and a power of two. -/
def Ratio.ofPower (factor : Nat) (power : Int) : Ratio :=
  ⟨factor * 2 ^ power.toNat, 2 ^ (-power).toNat⟩

/-- The exponent of the leading decimal digit. -/
def Ratio.leadingExponent (x : Ratio) : Int :=
  if x.denominator ≤ x.numerator then
    (Nat.toDigits 10 (x.numerator / x.denominator)).length - 1
  else
    let inverse := (x.denominator + x.numerator - 1) / x.numerator
    .negOfNat (Nat.toDigits 10 (inverse - 1)).length

/-- The quotient by a power of ten. -/
def Ratio.shift (x : Ratio) (power : Int) : Ratio :=
  ⟨x.numerator * 10 ^ (-power).toNat, x.denominator * 10 ^ power.toNat⟩

/-- A natural number is compared with a ratio. -/
def Ratio.below (n : Nat) (x : Ratio) : Bool := n * x.denominator < x.numerator

def Ratio.above (n : Nat) (x : Ratio) : Bool := x.numerator < n * x.denominator

/-- The ends of the interval that rounds to a finite positive number, and whether they belong. -/
structure RoundingInterval where
  low : Ratio
  high : Ratio
  closed : Bool

def roundingInterval (x : Binary64) : RoundingInterval where
  low :=
    if x.fraction = 0 ∧ 1 < x.exponentField then .ofPower (4 * x.significand - 1) (x.exponent - 2)
    else .ofPower (2 * x.significand - 1) (x.exponent - 1)
  high := .ofPower (2 * x.significand + 1) (x.exponent - 1)
  closed := x.significand % 2 = 0

/-- The multiple `n * 10 ^ power` rounds to the number. -/
def RoundingInterval.holds (interval : RoundingInterval) (power : Int) (n : Nat) : Bool :=
  let low := interval.low.shift power
  let high := interval.high.shift power
  if interval.closed then !Ratio.below n low && !Ratio.above n high
  else Ratio.above n low && Ratio.below n high

/-- The nearest multiple of a power of ten that rounds to the number, if a neighbour does. -/
def onGrid? (x : Binary64) (power : Int) : Option Nat :=
  let value := (Ratio.ofPower x.significand x.exponent).shift power
  let lower := value.numerator / value.denominator
  let upper := lower + 1
  let interval := x.roundingInterval
  let nearer := if 2 * (value.numerator % value.denominator) < value.denominator
    then [lower, upper] else [upper, lower]
  nearer.find? (interval.holds power)

/--
The first grid, from one digit to seventeen, with a multiple that rounds to the number. A multiple
that reaches the next power of ten has a zero at its end, which is no digit of the shortest text.
-/
def shortest (x : Binary64) : Decimal :=
  let leading := (Ratio.ofPower x.significand x.exponent).leadingExponent
  let candidates := (List.range 17).filterMap fun (places : Nat) =>
    let power := leading - places
    (x.onGrid? power).map fun n => (Decimal.mk n power).reduced
  candidates.headD ⟨0, 0⟩

end Binary64

/-- The decimal with a point where it is needed and without an exponent. -/
def Decimal.positional (x : Decimal) : String :=
  let digits := toString x.significand
  if 0 ≤ x.exponent then digits ++ String.ofList (List.replicate x.exponent.toNat '0')
  else
    let places := (-x.exponent).toNat
    let padded := (Text.padStart '0' (places + 1) digits).toList
    let whole := padded.length - places
    String.ofList (padded.take whole) ++ "." ++ String.ofList (padded.drop whole)

/-- The shortest positional text that reads back as the number. -/
def Binary64.text (x : Binary64) : String :=
  if x.isNaN then "NaN"
  else
    let sign := if x.negative then "-" else ""
    if x.isInfinite then sign ++ "inf"
    else if x.isZero then sign ++ "0"
    else sign ++ x.shortest.positional

end CompiledCode
