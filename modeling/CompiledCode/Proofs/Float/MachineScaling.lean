import CompiledCode.Proofs.Float.SingleRounding

/-!
Scaling as a machine does it: the power is counted down in a signed register of 32 bits, each power
of two is made of bits, and each product is a product of two numbers. No step leaves the register,
every power of two is in the normal range, and the result is the scaled number.
-/

namespace CompiledCode.Binary64

/-- A whole number that a signed register of 32 bits holds. -/
def register? (value : Int) : Option Int :=
  if -2 ^ 31 ≤ value ∧ value < 2 ^ 31 then some value else none

/-- The power of two that has these bits. There is none outside of the normal range. -/
def powerOfTwo? (power : Int) : Option Binary64 := do
  let field ← register? (1023 + power)
  if 1 ≤ field ∧ field ≤ 2046 then some ⟨.ofNat (field.toNat * 2 ^ 52)⟩ else none

/-- The product of two numbers, rounded once. -/
def times (x y : Binary64) : Binary64 :=
  if x.isNaN then x
  else if y.isNaN then y
  else if x.isInfinite || y.isInfinite then
    if x.isZero || y.isZero then nan else infinity (x.negative ^^ y.negative)
  else
    let scale := x.exponent + y.exponent
    nearest (x.negative ^^ y.negative) (x.significand * y.significand * 2 ^ scale.toNat)
      (2 ^ (-scale).toNat)

/-- The number and the power that are left for the last product. -/
def reduced? (x : Binary64) (power : Int) : Option (Binary64 × Int) := do
  let raise ← powerOfTwo? 1023
  let smallest ← powerOfTwo? (-1022)
  let places ← powerOfTwo? 53
  let lower := smallest.times places
  if 1023 < power then
    let rest ← register? (power - 1023)
    if 1023 < rest then
      let last ← register? (rest - 1023)
      return ((x.times raise).times raise, min last 1023)
    else return (x.times raise, rest)
  else if power < -1022 then
    let rest ← register? (power + (1022 - 53))
    if rest < -1022 then
      let last ← register? (rest + (1022 - 53))
      return ((x.times lower).times lower, max last (-1022))
    else return (x.times lower, rest)
  else return (x, power)

/-- The product with `2 ^ power`; there is none where an integer overflows. -/
def machineScale? (x : Binary64) (power : Int) : Option Binary64 := do
  let left ← x.reduced? power
  let last ← powerOfTwo? left.2
  return left.1.times last

theorem register?_eq (value : Int) (low : -2 ^ 31 ≤ value) (high : value < 2 ^ 31) :
    register? value = some value := if_pos ⟨low, high⟩

theorem powerOfTwo?_eq (power : Int) (low : -1022 ≤ power) (high : power ≤ 1023) :
    powerOfTwo? power = some (normal false (1023 + power).toNat 0) := by
  have field := register?_eq (1023 + power) (by omega) (by omega)
  rw [powerOfTwo?, field]
  change (if 1 ≤ 1023 + power ∧ 1023 + power ≤ 2046 then _ else none) = _
  rw [if_pos (by omega), normal, ofMagnitude, if_neg (by decide), Nat.zero_add, Nat.add_zero]

theorem times_of_finite {x y : Binary64} (xFinite : x.isFinite = true)
    (yFinite : y.isFinite = true) : x.times y = nearest (x.negative ^^ y.negative)
      (x.significand * y.significand * 2 ^ (x.exponent + y.exponent).toNat)
      (2 ^ (-(x.exponent + y.exponent)).toNat) := by
  have xTop : x.exponentField ≠ 2047 := by simpa [isFinite] using xFinite
  have yTop : y.exponentField ≠ 2047 := by simpa [isFinite] using yFinite
  simp [times, isNaN, isInfinite, xTop, yTop]

theorem signFactor_xor (left right : Bool) :
    signFactor (left ^^ right) = signFactor left * signFactor right := by
  cases left <;> cases right <;> simp [signFactor]

/-- The product of two finite numbers is the number nearest to their exact product. -/
theorem isNearest_times {x y : Binary64} (xFinite : x.isFinite = true)
    (yFinite : y.isFinite = true) : (x.times y).IsNearest (x.value * y.value) := by
  have found := isNearest_nearest (x.negative ^^ y.negative)
    (x.significand * y.significand * 2 ^ (x.exponent + y.exponent).toNat)
    (2 ^ (-(x.exponent + y.exponent)).toNat) (by positivity)
  rw [quotient_eq, signFactor_xor] at found
  rw [times_of_finite xFinite yFinite]
  have exact : signFactor x.negative * signFactor y.negative *
      ((x.significand * y.significand : Nat) * 2 ^ (x.exponent + y.exponent)) =
        x.value * y.value := by
    rw [value, value, magnitude, magnitude, zpow_add₀ (by norm_num), Nat.cast_mul]
    ring
  exact exact ▸ found

/-- An infinity or a NaN is not changed by a finite factor above zero. -/
theorem times_of_not_finite {x factor : Binary64} (notFinite : x.isFinite = false)
    (factorFinite : factor.isFinite = true) (factorFilled : factor.isZero = false)
    (factorSign : factor.negative = false) : x.times factor = x := by
  have factorNumber : ¬ factor.isNaN = true := by
    simp only [isFinite, isNaN, decide_eq_true_eq] at *
    omega
  rw [times, if_neg factorNumber]
  split
  · rfl
  · rename_i isNumber
    have infinite : x.isInfinite = true := by
      by_contra notInfinite
      rw [isFinite_of_not isNumber notInfinite] at notFinite
      exact absurd notFinite (by decide)
    have filled : x.isZero = false := by
      simp only [isInfinite, isZero, decide_eq_true_eq, decide_eq_false_iff_not] at *
      omega
    rw [infinite, Bool.true_or, if_pos rfl, filled, factorFilled, if_neg (by decide), factorSign,
      Bool.xor_false, eq_infinity infinite]

/-- A product with the bits of a power of two is the product with this power. -/
theorem times_powerOfTwo (x : Binary64) (power : Int) (low : -1022 ≤ power)
    (high : power ≤ 1023) :
    x.times (normal false (1023 + power).toNat 0) = x.timesPowerOfTwo power := by
  have isField : (1023 + power).toNat ≤ 2046 := by omega
  set factor := normal false (1023 + power).toNat 0 with factorEq
  have factorFinite : factor.isFinite = true := isFinite_normal isField (by decide)
  have factorSign : factor.negative = false := negative_normal isField (by decide)
  cases finite : x.isFinite with
  | true =>
    have factorValue : factor.value = 2 ^ power := by
      rw [value, factorSign, signFactor, if_neg (by decide), one_mul,
        magnitude_normal_power (by omega) isField]
      congr 1
      omega
    have product := isNearest_times finite factorFinite
    rw [factorValue] at product
    apply product.unique (isNearest_timesPowerOfTwo finite power)
    rw [times_of_finite finite factorFinite, negative_nearest, factorSign, Bool.xor_false,
      negative_timesPowerOfTwo finite]
  | false =>
    have factorFilled : factor.isZero = false := by
      have field : factor.exponentField = (1023 + power).toNat :=
        exponentField_normal isField (by decide)
      simp only [isZero, decide_eq_false_iff_not]
      omega
    rw [timesPowerOfTwo_of_not_finite finite,
      times_of_not_finite finite factorFinite factorFilled factorSign]

/-- The factor of the way down is exact. -/
theorem times_places :
    (normal false (1023 + -1022 : Int).toNat 0).times (normal false (1023 + 53 : Int).toNat 0) =
      normal false (1023 + -969 : Int).toNat 0 := by
  rw [times_powerOfTwo _ 53 (by decide) (by decide)]
  exact normal_timesPowerOfTwo (by decide) (by decide) (by decide) (by decide) (by decide)
    (by decide)

/-- No integer overflows on the way to the last product, and its power is in the normal range. -/
theorem reduced?_eq (x : Binary64) {power : Int} (low : -2 ^ 31 ≤ power) (high : power < 2 ^ 31) :
    ∃ left rest, x.reduced? power = some (left, rest) ∧ -1022 ≤ rest ∧ rest ≤ 1023 ∧
      left.timesPowerOfTwo rest = x.scale power := by
  have raise := fun y : Binary64 => y.times_powerOfTwo 1023 (by decide) (by decide)
  have lower := fun y : Binary64 => y.times_powerOfTwo (-969) (by decide) (by decide)
  rw [reduced?, powerOfTwo?_eq 1023 (by decide) (by decide),
    powerOfTwo?_eq (-1022) (by decide) (by decide),
    powerOfTwo?_eq 53 (by decide) (by decide)]
  simp only [Option.bind_eq_bind, Option.bind_some, times_places, raise, lower]
  rw [scale, scalingSteps]
  by_cases large : 1023 < power
  · rw [if_pos large, if_pos large, register?_eq _ (by omega) (by omega), Option.bind_some]
    by_cases larger : 1023 < power - 1023
    · rw [if_pos larger, if_pos larger, register?_eq _ (by omega) (by omega), Option.bind_some,
        show power - 1023 - 1023 = power - 2046 by omega]
      exact ⟨_, _, rfl, by omega, by omega, rfl⟩
    · rw [if_neg larger, if_neg larger]
      exact ⟨_, _, rfl, by omega, by omega, rfl⟩
  · rw [if_neg large, if_neg large]
    by_cases small : power < -1022
    · rw [if_pos small, if_pos small, show power + (1022 - 53) = power + 969 by omega,
        register?_eq _ (by omega) (by omega), Option.bind_some]
      by_cases smaller : power + 969 < -1022
      · rw [if_pos smaller, if_pos smaller,
          show power + 969 + (1022 - 53) = power + 1938 by omega,
          register?_eq _ (by omega) (by omega), Option.bind_some]
        exact ⟨_, _, rfl, by omega, by omega, rfl⟩
      · rw [if_neg smaller, if_neg smaller]
        exact ⟨_, _, rfl, by omega, by omega, rfl⟩
    · rw [if_neg small, if_neg small]
      exact ⟨_, _, rfl, by omega, by omega, rfl⟩

/-- No integer overflows, each power of two is in the normal range, and the result is the scaling. -/
theorem machineScale?_eq (x : Binary64) {power : Int} (low : -2 ^ 31 ≤ power)
    (high : power < 2 ^ 31) : x.machineScale? power = some (x.scale power) := by
  obtain ⟨left, rest, reduced, restLow, restHigh, product⟩ := x.reduced?_eq low high
  rw [machineScale?, reduced]
  simp only [Option.bind_eq_bind, Option.bind_some]
  rw [powerOfTwo?_eq rest restLow restHigh, Option.bind_some,
    left.times_powerOfTwo rest restLow restHigh, product]
  rfl

/--
A scaling comes to an end without an overflow of its integers, and gives the one number nearest to
the product that has its sign: an infinity from the middle between the largest finite number and
`2 ^ 1024` on, a zero up to the middle between zero and the smallest number above it. An infinity is
not changed, and a NaN stays one.
-/
structure RoundsOnce (x : Binary64) (power : Int) : Prop where
  machine : x.machineScale? power = some (x.scale power)
  nearest : x.isFinite = true → (x.scale power).IsNearest (x.value * 2 ^ power)
  sign : x.isFinite = true → (x.scale power).negative = x.negative
  unique : x.isFinite = true → ∀ y : Binary64, y.IsNearest (x.value * 2 ^ power) →
    y.negative = x.negative → y = x.scale power
  overflow : x.isFinite = true → ((x.scale power).isInfinite = true ↔
    (2 : ℚ) ^ (1024 : Int) - 2 ^ (970 : Int) ≤ |x.value * 2 ^ power|)
  underflow : x.isFinite = true → ((x.scale power).isZero = true ↔
    |x.value * 2 ^ power| ≤ (2 : ℚ) ^ (-1075 : Int))
  infinite : x.isInfinite = true → x.scale power = x
  notNumber : x.isNaN = true → (x.scale power).isNaN = true

/--
A number is split into a mantissa, whose size is at least one half and below one, and a power of
two. Their product is the number, and so is their scaling, bit for bit.
-/
structure SplitsInto (x mantissa : Binary64) (power : Int) : Prop where
  split_eq : x.split = (mantissa, power)
  atLeastHalf : 1 / 2 ≤ |mantissa.value|
  belowOne : |mantissa.value| < 1
  low : -1073 ≤ power
  high : power ≤ 1024
  value_eq : x.value = mantissa.value * 2 ^ power
  joined : mantissa.scale power = x

theorem roundsOnce (x : Binary64) {power : Int} (low : -2 ^ 31 ≤ power) (high : power < 2 ^ 31) :
    x.RoundsOnce power where
  machine := x.machineScale?_eq low high
  nearest finite := by
    rw [scale_eq_timesPowerOfTwo finite]
    exact isNearest_timesPowerOfTwo finite power
  sign finite := by
    rw [scale_eq_timesPowerOfTwo finite]
    exact negative_timesPowerOfTwo finite power
  unique finite y yNearest sign := by
    rw [scale_eq_timesPowerOfTwo finite]
    apply yNearest.unique (isNearest_timesPowerOfTwo finite power)
    rw [sign, negative_timesPowerOfTwo finite]
  overflow finite := by
    rw [scale_eq_timesPowerOfTwo finite]
    exact (isNearest_timesPowerOfTwo finite power).isInfinite_iff rfl
  underflow finite := by
    rw [scale_eq_timesPowerOfTwo finite]
    exact (isNearest_timesPowerOfTwo finite power).isZero_iff rfl
  infinite isInfinite := by
    have top : x.exponentField = 2047 ∧ x.fraction = 0 := by
      simpa [Binary64.isInfinite] using isInfinite
    exact scale_of_not_finite (by simp [isFinite, top.1]) power
  notNumber isNaN := by
    have top : x.exponentField = 2047 ∧ x.fraction ≠ 0 := by simpa [Binary64.isNaN] using isNaN
    rwa [scale_of_not_finite (by simp [isFinite, top.1]) power]

theorem exists_splitsInto {x : Binary64} (finite : x.isFinite = true) (filled : x.isZero = false) :
    ∃ mantissa power, x.SplitsInto mantissa power := by
  obtain ⟨part, power, isFraction, low, high, parts, product⟩ := split_eq finite filled
  have sizes := magnitude_mantissa x.negative isFraction
  refine ⟨normal x.negative 1022 part, power, parts, ?_, ?_, low, high, ?_, ?_⟩
  · rw [abs_value]
    exact sizes.1
  · rw [abs_value]
    exact sizes.2
  · rw [value, value, negative_normal (by decide) isFraction, mul_assoc, product]
  · exact scale_normal finite isFraction low high product

/--
Scaling by any power of 32 bits rounds once, and a finite number other than zero is split and put
together again without an error.
-/
theorem scale_rounds_once (x : Binary64) :
    (∀ power : Int, -2 ^ 31 ≤ power → power < 2 ^ 31 → x.RoundsOnce power) ∧
      (x.isFinite = true → x.isZero = false → ∃ mantissa power, x.SplitsInto mantissa power) :=
  ⟨fun _ low high => x.roundsOnce low high, exists_splitsInto⟩

/-- One and a half of the smallest number above zero is a tie, which two products round to even. -/
theorem scale_rounds_once_tie :
    (normal false 1023 (2 ^ 51)).RoundsOnce (-1074) ∧
      (normal false 1023 (2 ^ 51)).machineScale? (-1074) = some (ofMagnitude false 2) ∧
      ∃ mantissa power, (ofMagnitude false 1).SplitsInto mantissa power :=
  ⟨(scale_rounds_once (normal false 1023 (2 ^ 51))).1 (-1074) (by decide) (by decide),
    by decide +kernel, (scale_rounds_once (ofMagnitude false 1)).2 (by decide) (by decide)⟩

end CompiledCode.Binary64
