import CompiledCode.Proofs.Float.Nearest

/-!
Scaling by a power of two multiplies several times and rounds once. The first products are exact
unless they leave the normal range, and then no later product brings the number back: upwards it has
reached infinity, and downwards the last power is so small that the result is zero.
-/

namespace CompiledCode.Binary64

theorem eq_zero_of_isZero {x : Binary64} (isZero : x.isZero = true) : x = zero x.negative := by
  have parts : x.exponentField = 0 ∧ x.fraction = 0 := by simpa [Binary64.isZero] using isZero
  have rebuilt := ofMagnitude_fields x
  rw [parts.1, parts.2] at rebuilt
  exact rebuilt.symm

theorem timesPowerOfTwo_of_not_finite {x : Binary64} (notFinite : x.isFinite = false)
    (power : Int) : x.timesPowerOfTwo power = x := by
  rw [timesPowerOfTwo, if_neg (by simp [notFinite])]

/-- A whole number of powers of two, as the quotient that is rounded. -/
theorem quotient_eq (count : Nat) (power : Int) :
    ((count * 2 ^ power.toNat : Nat) : ℚ) / (2 ^ (-power).toNat : Nat) = count * 2 ^ power := by
  rw [twoPower_eq power]
  push_cast
  ring

theorem magnitude_normal_power {isNegative : Bool} {field : Nat} (positive : 1 ≤ field)
    (isField : field ≤ 2046) :
    (normal isNegative field 0).magnitude = 2 ^ ((field : Int) - 1023) := by
  have places : ((2 ^ 52 + 0 : Nat) : ℚ) = 2 ^ (52 : Int) := by norm_num
  rw [magnitude_normal positive isField (by decide), places, ← zpow_add₀ (by norm_num)]
  congr 1
  omega

section Product

variable {x : Binary64} (finite : x.isFinite = true) (power : Int)

theorem abs_product (x : Binary64) (power : Int) :
    |x.value * 2 ^ power| = x.magnitude * 2 ^ power := by
  rw [abs_mul, abs_value, abs_of_pos (twoPower_pos power)]

include finite

/-- A product with a power of two is the number nearest to the exact product. -/
theorem isNearest_timesPowerOfTwo : (x.timesPowerOfTwo power).IsNearest (x.value * 2 ^ power) := by
  have found := isNearest_nearest x.negative (x.significand * 2 ^ (x.exponent + power).toNat)
    (2 ^ (-(x.exponent + power)).toNat) (by positivity)
  rw [quotient_eq] at found
  rw [timesPowerOfTwo, if_pos finite, value, magnitude, mul_assoc, mul_assoc,
    ← zpow_add₀ (by norm_num)]
  exact found

theorem negative_timesPowerOfTwo : (x.timesPowerOfTwo power).negative = x.negative := by
  rw [timesPowerOfTwo, if_pos finite]
  exact negative_nearest x.negative

theorem timesPowerOfTwo_overflow (large : (2 : ℚ) ^ (1024 : Int) ≤ x.magnitude * 2 ^ power) :
    x.timesPowerOfTwo power = infinity x.negative := by
  have found := isNearest_timesPowerOfTwo finite power
  have infinite := (found.isInfinite_iff (x.abs_product power)).mpr
    ((sub_le_self _ (twoPower_pos _).le).trans large)
  rw [← eq_infinity infinite, negative_timesPowerOfTwo finite]

theorem timesPowerOfTwo_underflow (small : x.magnitude * 2 ^ power ≤ (2 : ℚ) ^ (-1075 : Int)) :
    x.timesPowerOfTwo power = zero x.negative := by
  have found := isNearest_timesPowerOfTwo finite power
  have isZero := (found.isZero_iff (x.abs_product power)).mpr small
  rw [eq_zero_of_isZero isZero, negative_timesPowerOfTwo finite]

/-- Products that are the same number before the rounding are the same after it. -/
theorem timesPowerOfTwo_congr {y : Binary64} (otherFinite : y.isFinite = true) {other : Int}
    (sign : x.negative = y.negative) (size : x.magnitude * 2 ^ power = y.magnitude * 2 ^ other) :
    x.timesPowerOfTwo power = y.timesPowerOfTwo other := by
  have same : x.value * 2 ^ power = y.value * 2 ^ other := by
    rw [value, value, mul_assoc, mul_assoc, sign, size]
  apply (isNearest_timesPowerOfTwo finite power).unique
  · rw [same]
    exact isNearest_timesPowerOfTwo otherFinite other
  · rw [negative_timesPowerOfTwo finite, negative_timesPowerOfTwo otherFinite, sign]

/-- A product in the normal range is exact. -/
theorem timesPowerOfTwo_exact (low : (2 : ℚ) ^ (-1022 : Int) ≤ x.magnitude * 2 ^ power)
    (high : x.magnitude * 2 ^ power < (2 : ℚ) ^ (1024 : Int)) :
    (x.timesPowerOfTwo power).isFinite = true ∧
      (x.timesPowerOfTwo power).magnitude = x.magnitude * 2 ^ power := by
  have filled : x.isZero = false := by
    by_contra isZero
    rw [magnitude_of_isZero (by simpa using isZero), zero_mul] at low
    exact absurd low (not_le.mpr (twoPower_pos _))
  obtain ⟨part, shift, isFraction, _, _, _, product⟩ := split_eq finite filled
  obtain ⟨atLeastHalf, belowOne⟩ := magnitude_mantissa x.negative isFraction
  rw [← product, mul_assoc, ← zpow_add₀ (by norm_num)] at low high
  have shiftLow : -1022 < shift + power := by
    have above := low.trans_lt (mul_lt_of_lt_one_left (twoPower_pos _) belowOne)
    exact (zpow_lt_zpow_iff_right₀ (by norm_num)).mp above
  have shiftHigh : shift + power < 1025 := by
    have half : (2 : ℚ) ^ (-1 + (shift + power)) ≤
        (normal x.negative 1022 part).magnitude * 2 ^ (shift + power) := by
      rw [zpow_add₀ (by norm_num), zpow_neg_one, inv_eq_one_div]
      exact mul_le_mul_of_nonneg_right atLeastHalf (twoPower_pos _).le
    have below := (zpow_lt_zpow_iff_right₀ (by norm_num)).mp (half.trans_lt high)
    omega
  obtain ⟨field, fieldEq⟩ := Int.eq_ofNat_of_zero_le (by omega : 0 ≤ 1022 + (shift + power))
  have isField : field ≤ 2046 := by omega
  have size : (normal x.negative field part).magnitude = x.magnitude * 2 ^ power := by
    rw [← magnitude_half (by omega) isField isFraction, ← product, mul_assoc,
      ← zpow_add₀ (by norm_num)]
    congr 2
    omega
  rw [timesPowerOfTwo_eq finite (isFinite_normal isField isFraction)
    (negative_normal isField isFraction) size]
  exact ⟨isFinite_normal isField isFraction, size⟩

/-- A product below the normal numbers is rounded to at most the smallest of them. -/
theorem timesPowerOfTwo_small (small : x.magnitude * 2 ^ power ≤ (2 : ℚ) ^ (-1022 : Int)) :
    (x.timesPowerOfTwo power).isFinite = true ∧
      (x.timesPowerOfTwo power).magnitude ≤ 2 ^ (-1022 : Int) := by
  have smallestNormal : (normal false 1 0).magnitude = 2 ^ (-1022 : Int) :=
    magnitude_normal_power (by decide) (by decide)
  have bounded : (x.timesPowerOfTwo power).magnitude ≤ 2 ^ (-1022 : Int) := by
    have closest := ((isNearest_timesPowerOfTwo finite power).sizes (x.abs_product power)
      (w := normal false 1 0) (by decide)).1
    rw [smallestNormal, abs_of_nonneg (sub_nonneg.mpr small)] at closest
    linarith [le_abs_self ((x.timesPowerOfTwo power).magnitude - x.magnitude * 2 ^ power)]
  refine ⟨?_, bounded⟩
  by_contra notFinite
  have above := magnitude_ge_of_infinite (by simpa using notFinite)
  have order := (zpow_le_zpow_iff_right₀ (by norm_num)).mp (above.trans bounded)
  omega

end Product

section Steps

variable {x : Binary64} (finite : x.isFinite = true)

include finite

theorem timesPowerOfTwo_zero (isZero : x.isZero = true) (power : Int) :
    x.timesPowerOfTwo power = x := by
  rw [timesPowerOfTwo_underflow finite power, ← eq_zero_of_isZero isZero]
  rw [magnitude_of_isZero isZero, zero_mul]
  exact (twoPower_pos _).le

theorem timesPowerOfTwo_twice_exact {first : Int} (rest : Int)
    (low : (2 : ℚ) ^ (-1022 : Int) ≤ x.magnitude * 2 ^ first)
    (high : x.magnitude * 2 ^ first < (2 : ℚ) ^ (1024 : Int)) :
    (x.timesPowerOfTwo first).timesPowerOfTwo rest = x.timesPowerOfTwo (first + rest) := by
  obtain ⟨productFinite, size⟩ := timesPowerOfTwo_exact finite first low high
  apply timesPowerOfTwo_congr productFinite rest finite (negative_timesPowerOfTwo finite first)
  rw [size, mul_assoc, ← zpow_add₀ (by norm_num)]

/-- Upwards the first product is exact or infinite, as no number is smaller than `2 ^ (-1074)`. -/
theorem timesPowerOfTwo_twice_up {first rest : Int} (leaves : 52 ≤ first) (up : 0 ≤ rest) :
    (x.timesPowerOfTwo first).timesPowerOfTwo rest = x.timesPowerOfTwo (first + rest) := by
  by_cases isZero : x.isZero = true
  · rw [timesPowerOfTwo_zero finite isZero, timesPowerOfTwo_zero finite isZero,
      timesPowerOfTwo_zero finite isZero]
  have low : (2 : ℚ) ^ (-1022 : Int) ≤ x.magnitude * 2 ^ first := by
    calc (2 : ℚ) ^ (-1022 : Int) = 2 * 2 ^ (-1075 : Int) * 2 ^ (52 : Int) := by
          rw [smallest_size, ← zpow_add₀ (by norm_num)]
          rfl
      _ ≤ x.magnitude * 2 ^ first :=
        mul_le_mul (magnitude_ge (by simpa using isZero))
          (zpow_le_zpow_right₀ (by norm_num) leaves) (twoPower_pos _).le x.magnitude_nonneg
  by_cases high : x.magnitude * 2 ^ first < (2 : ℚ) ^ (1024 : Int)
  · exact timesPowerOfTwo_twice_exact finite rest low high
  · have larger : x.magnitude * 2 ^ first ≤ x.magnitude * 2 ^ (first + rest) :=
      mul_le_mul_of_nonneg_left (zpow_le_zpow_right₀ (by norm_num) (by omega)) x.magnitude_nonneg
    -- The second product finds an infinity, and the whole product is even larger.
    have stays : (infinity x.negative).isFinite = false := by cases x.negative <;> decide
    rw [timesPowerOfTwo_overflow finite first (not_lt.mp high),
      timesPowerOfTwo_of_not_finite stays,
      timesPowerOfTwo_overflow finite _ ((not_lt.mp high).trans larger)]

/-- Downwards a first product that is not exact is at most the smallest normal number. -/
theorem timesPowerOfTwo_twice_down {first rest : Int} (down : first ≤ 0) (low : rest ≤ -54) :
    (x.timesPowerOfTwo first).timesPowerOfTwo rest = x.timesPowerOfTwo (first + rest) := by
  by_cases isNormal : (2 : ℚ) ^ (-1022 : Int) ≤ x.magnitude * 2 ^ first
  · apply timesPowerOfTwo_twice_exact finite rest isNormal
    calc x.magnitude * 2 ^ first ≤ x.magnitude * 1 :=
          mul_le_mul_of_nonneg_left (zpow_le_one_of_nonpos₀ (by norm_num) down) x.magnitude_nonneg
      _ < 2 ^ (1024 : Int) := by
        rw [mul_one]
        exact (magnitude_le_of_isFinite finite).trans_lt
          (sub_lt_self _ (mul_pos two_pos (twoPower_pos _)))
  · -- Both ways end below the half of the smallest number, and so no rounding shows.
    have small := (not_le.mp isNormal).le
    obtain ⟨productFinite, bounded⟩ := timesPowerOfTwo_small finite first small
    have vanishes : ∀ {size : ℚ}, size ≤ 2 ^ (-1022 : Int) →
        size * 2 ^ rest ≤ 2 ^ (-1075 : Int) := by
      intro size within
      calc size * 2 ^ rest ≤ 2 ^ (-1022 : Int) * 2 ^ rest :=
            mul_le_mul_of_nonneg_right within (twoPower_pos _).le
        _ = 2 ^ (-1022 + rest) := (zpow_add₀ (by norm_num) _ _).symm
        _ ≤ 2 ^ (-1075 : Int) := zpow_le_zpow_right₀ (by norm_num) (by omega)
    have product : x.magnitude * 2 ^ (first + rest) ≤ 2 ^ (-1075 : Int) := by
      rw [zpow_add₀ (by norm_num), ← mul_assoc]
      exact vanishes small
    rw [timesPowerOfTwo_underflow productFinite rest (vanishes bounded),
      negative_timesPowerOfTwo finite, timesPowerOfTwo_underflow finite _ product]

/-- Every number but zero is infinite after so many doublings. -/
theorem timesPowerOfTwo_saturated_up {power other : Int} (large : 2098 ≤ power)
    (alsoLarge : 2098 ≤ other) : x.timesPowerOfTwo power = x.timesPowerOfTwo other := by
  by_cases isZero : x.isZero = true
  · rw [timesPowerOfTwo_zero finite isZero, timesPowerOfTwo_zero finite isZero]
  have above : ∀ {places : Int}, 2098 ≤ places →
      (2 : ℚ) ^ (1024 : Int) ≤ x.magnitude * 2 ^ places := by
    intro places enough
    calc (2 : ℚ) ^ (1024 : Int) = 2 * 2 ^ (-1075 : Int) * 2 ^ (2098 : Int) := by
          rw [smallest_size, ← zpow_add₀ (by norm_num)]
          rfl
      _ ≤ x.magnitude * 2 ^ places :=
        mul_le_mul (magnitude_ge (by simpa using isZero))
          (zpow_le_zpow_right₀ (by norm_num) enough) (twoPower_pos _).le x.magnitude_nonneg
  rw [timesPowerOfTwo_overflow finite _ (above large),
    timesPowerOfTwo_overflow finite _ (above alsoLarge)]

/-- Every finite number is zero after so many halvings. -/
theorem timesPowerOfTwo_saturated_down {power other : Int} (small : power ≤ -2099)
    (alsoSmall : other ≤ -2099) : x.timesPowerOfTwo power = x.timesPowerOfTwo other := by
  have below : ∀ {places : Int}, places ≤ -2099 →
      x.magnitude * 2 ^ places ≤ (2 : ℚ) ^ (-1075 : Int) := by
    intro places enough
    have bounded : x.magnitude ≤ 2 ^ (1024 : Int) := (magnitude_le_of_isFinite finite).trans
      (sub_le_self _ (mul_pos two_pos (twoPower_pos _)).le)
    calc x.magnitude * 2 ^ places ≤ 2 ^ (1024 : Int) * 2 ^ (-2099 : Int) :=
          mul_le_mul bounded (zpow_le_zpow_right₀ (by norm_num) enough) (twoPower_pos _).le
            (twoPower_pos _).le
      _ = 2 ^ (-1075 : Int) := by
          rw [← zpow_add₀ (by norm_num)]
          rfl
  rw [timesPowerOfTwo_underflow finite _ (below small),
    timesPowerOfTwo_underflow finite _ (below alsoSmall)]

/-- The products of a scaling are together a single rounded product. -/
theorem scale_eq_timesPowerOfTwo (power : Int) : x.scale power = x.timesPowerOfTwo power := by
  rw [scale, scalingSteps]
  by_cases large : 1023 < power
  · rw [if_pos large]
    by_cases larger : 1023 < power - 1023
    · rw [if_pos larger, List.foldl_cons, List.foldl_cons, List.foldl_cons, List.foldl_nil,
        timesPowerOfTwo_twice_up finite (by decide) (by decide),
        timesPowerOfTwo_twice_up finite (by decide) (by omega)]
      by_cases clamped : power - 2046 ≤ 1023
      · rw [min_eq_left clamped]
        congr 1
        omega
      · -- The last power is cut off at 1023, where nothing but zero is finite any more.
        exact timesPowerOfTwo_saturated_up finite (by omega) (by omega)
    · rw [if_neg larger, List.foldl_cons, List.foldl_cons, List.foldl_nil,
        timesPowerOfTwo_twice_up finite (by decide) (by omega)]
      congr 1
      omega
  · rw [if_neg large]
    by_cases small : power < -1022
    · rw [if_pos small]
      by_cases smaller : power + 969 < -1022
      · rw [if_pos smaller, List.foldl_cons, List.foldl_cons, List.foldl_cons, List.foldl_nil,
          timesPowerOfTwo_twice_down finite (by decide) (by decide),
          timesPowerOfTwo_twice_down finite (by decide) (by omega)]
        by_cases clamped : -1022 ≤ power + 1938
        · rw [max_eq_left clamped]
          congr 1
          omega
        · exact timesPowerOfTwo_saturated_down finite (by omega) (by omega)
      · rw [if_neg smaller, List.foldl_cons, List.foldl_cons, List.foldl_nil,
          timesPowerOfTwo_twice_down finite (by decide) (by omega)]
        congr 1
        omega
    · rw [if_neg small, List.foldl_cons, List.foldl_nil]

omit finite in
theorem scale_of_not_finite (notFinite : x.isFinite = false) (power : Int) : x.scale power = x := by
  have stays : ∀ steps : List Int, steps.foldl timesPowerOfTwo x = x := by
    intro steps
    induction steps with
    | nil => rfl
    | cons step rest ih => rw [List.foldl_cons, timesPowerOfTwo_of_not_finite notFinite, ih]
  exact stays _

end Steps

end CompiledCode.Binary64
