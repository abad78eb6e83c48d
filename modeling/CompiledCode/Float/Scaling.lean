import CompiledCode.Float.Binary64

namespace CompiledCode.Binary64

/-- The mantissa with magnitude in [1/2, 1) and the exponent of a number that is not subnormal. -/
def splitNormal (x : Binary64) : Binary64 × Int :=
  (ofMagnitude x.negative (1022 * 2 ^ 52 + x.fraction), (x.exponentField : Int) - 1022)

/--
A finite number other than zero is split into a mantissa with magnitude in [1/2, 1) and a power
of two. Zero, the infinities and NaN are their own mantissa, with exponent zero.
-/
def split (x : Binary64) : Binary64 × Int :=
  if x.isZero || !x.isFinite then (x, 0)
  else if x.exponentField = 0 then
    let (mantissa, exponent) := (x.timesPowerOfTwo 64).splitNormal
    (mantissa, exponent - 64)
  else x.splitNormal

/--
The powers of two, each within the normal range, that a number is multiplied by one after
another. On the way down a step stops 53 powers early, so that a subnormal result is rounded once.
-/
def scalingSteps (power : Int) : List Int :=
  if 1023 < power then
    if 1023 < power - 1023 then [1023, 1023, min (power - 2046) 1023] else [1023, power - 1023]
  else if power < -1022 then
    if power + 969 < -1022 then [-969, -969, max (power + 1938) (-1022)] else [-969, power + 969]
  else [power]

/-- The product with `2 ^ power`. -/
def scale (x : Binary64) (power : Int) : Binary64 :=
  (scalingSteps power).foldl timesPowerOfTwo x

end CompiledCode.Binary64
