import CompiledCode.Proofs.Float.LineMeaning

/-!
What it means that a number is the nearest one to a rational, said without a way to find it. From
this alone it follows where the infinities and the zeros begin.
-/

namespace CompiledCode.Binary64

/--
No number is closer to the rational, and where another one is as close the significand is even. An
infinity counts as `2 ^ 1024`, the first power of two that is no finite number.
-/
structure IsNearest (ratio : ℚ) (y : Binary64) : Prop where
  isNumber : y.isNaN = false
  closest : ∀ z : Binary64, z.isNaN = false → |y.value - ratio| ≤ |z.value - ratio|
  even : ∀ z : Binary64, z.isNaN = false → z.value ≠ y.value →
    |z.value - ratio| = |y.value - ratio| → y.significand % 2 = 0

section Sizes

theorem exponent_ge (z : Binary64) : -1074 ≤ z.exponent := by
  rw [exponent]
  omega

theorem infinity_size : (2 : ℚ) ^ (1024 : Int) = (2 ^ 52 : Nat) * 2 ^ (972 : Int) := by
  rw [show (1024 : Int) = 52 + 972 by rfl, zpow_add₀ (by norm_num), Nat.cast_pow]
  rfl

/-- The infinities and the NaNs are above all finite numbers. -/
theorem magnitude_ge_of_infinite {z : Binary64} (infinite : z.isFinite = false) :
    (2 : ℚ) ^ (1024 : Int) ≤ z.magnitude := by
  have field : z.exponentField = 2047 := by simpa [isFinite] using infinite
  have significandEq : z.significand = 2 ^ 52 + z.fraction := by
    rw [significand, if_neg (by omega)]
  have exponentEq : z.exponent = 972 := by
    rw [exponent, field]
    rfl
  have low : ((2 ^ 52 : Nat) : ℚ) ≤ z.significand := by
    rw [significandEq]
    exact_mod_cast Nat.le_add_right _ _
  rw [infinity_size, magnitude, exponentEq]
  exact mul_le_mul_of_nonneg_right low (twoPower_pos _).le

theorem magnitude_of_isInfinite {z : Binary64} (infinite : z.isInfinite = true) :
    z.magnitude = 2 ^ (1024 : Int) := by
  have parts : z.exponentField = 2047 ∧ z.fraction = 0 := by simpa [isInfinite] using infinite
  have significandEq : z.significand = 2 ^ 52 := by
    rw [significand, if_neg (by omega), parts.2]
  have exponentEq : z.exponent = 972 := by
    rw [exponent, parts.1]
    rfl
  rw [infinity_size, magnitude, significandEq, exponentEq]

theorem largest_size :
    ((2 : ℚ) ^ 53 - 1) * 2 ^ (971 : Int) = 2 ^ (1024 : Int) - 2 * 2 ^ (970 : Int) := by
  rw [show (1024 : Int) = 53 + 971 by rfl, zpow_add₀ (by norm_num), sub_mul, one_mul,
    show (971 : Int) = 1 + 970 by rfl, zpow_add₀ (by norm_num) 1, zpow_one]
  rfl

theorem magnitude_le_of_isFinite {z : Binary64} (finite : z.isFinite = true) :
    z.magnitude ≤ 2 ^ (1024 : Int) - 2 * 2 ^ (970 : Int) := by
  have fieldBound := isFinite_iff.mp finite
  have exponentBound : z.exponent ≤ 971 := by
    rw [exponent]
    omega
  have significandBound : (z.significand : ℚ) ≤ 2 ^ 53 - 1 := by
    have below := z.significand_lt
    have cast : ((z.significand + 1 : Nat) : ℚ) ≤ (2 ^ 53 : Nat) := by exact_mod_cast below
    push_cast at cast
    linarith
  rw [← largest_size]
  exact mul_le_mul significandBound (zpow_le_zpow_right₀ (by norm_num) exponentBound)
    (twoPower_pos _).le (by norm_num)

theorem magnitude_le {z : Binary64} (isNumber : z.isNaN = false) :
    z.magnitude ≤ 2 ^ (1024 : Int) := by
  by_cases infinite : z.isInfinite = true
  · exact (magnitude_of_isInfinite infinite).le
  · have finite := isFinite_of_not (by simp [isNumber]) infinite
    have step : (0 : ℚ) ≤ 2 * 2 ^ (970 : Int) := mul_nonneg two_pos.le (twoPower_pos _).le
    exact (magnitude_le_of_isFinite finite).trans (sub_le_self _ step)

theorem smallest_size : 2 * (2 : ℚ) ^ (-1075 : Int) = 2 ^ (-1074 : Int) := by
  rw [← zpow_one_add₀ (by norm_num)]
  rfl

theorem magnitude_ge {z : Binary64} (filled : z.isZero = false) :
    2 * (2 : ℚ) ^ (-1075 : Int) ≤ z.magnitude := by
  have some : z.significand ≠ 0 := fun none => by
    rw [isZero_iff.mpr none] at filled
    exact absurd filled (by decide)
  have one : (1 : ℚ) ≤ z.significand := by exact_mod_cast Nat.pos_of_ne_zero some
  rw [smallest_size, ← one_mul ((2 : ℚ) ^ (-1074 : Int))]
  exact mul_le_mul one (zpow_le_zpow_right₀ (by norm_num) z.exponent_ge) (twoPower_pos _).le
    (Nat.cast_nonneg _)

theorem magnitude_of_isZero {z : Binary64} (isZero : z.isZero = true) : z.magnitude = 0 := by
  rw [magnitude, isZero_iff.mp isZero, Nat.cast_zero, zero_mul]

/-- The size of a number determines its parts. -/
theorem parts_of_magnitude_eq {y z : Binary64} (same : y.magnitude = z.magnitude) :
    y.significand = z.significand ∧ y.exponent = z.exponent := by
  have empty : ∀ w : Binary64, w.significand = 0 ↔ w.magnitude = 0 := by
    intro w
    rw [magnitude, mul_eq_zero, or_iff_left (twoPower_pos _).ne', Nat.cast_eq_zero]
  by_cases zero : y.significand = 0
  · have zeroOther : z.significand = 0 := (empty z).mpr (same ▸ (empty y).mp zero)
    have smallest : ∀ w : Binary64, w.significand = 0 → w.exponent = -1074 := by
      intro w none
      have field : w.exponentField = 0 := by
        by_contra isNormal
        rw [significand, if_neg isNormal] at none
        omega
      rw [exponent, field]
      rfl
    exact ⟨zero.trans zeroOther.symm, (smallest y zero).trans (smallest z zeroOther).symm⟩
  · have zeroOther : z.significand ≠ 0 := by
      intro none
      exact zero ((empty y).mpr (same ▸ (empty z).mp none))
    have exponents : y.exponent = z.exponent := by
      rw [← unit_eq (Nat.pos_of_ne_zero zero), ← unit_eq (Nat.pos_of_ne_zero zeroOther), same]
    refine ⟨?_, exponents⟩
    rw [magnitude, magnitude, exponents] at same
    exact_mod_cast mul_right_cancel₀ (twoPower_pos _).ne' same

theorem eq_of_magnitude {y z : Binary64} (sign : y.negative = z.negative)
    (same : y.magnitude = z.magnitude) : y = z := by
  obtain ⟨significands, exponents⟩ := parts_of_magnitude_eq same
  rw [← ofMagnitude_significand y, ← ofMagnitude_significand z, sign, significands, exponents]

/-- Each number is there with both signs. -/
theorem exists_signed (z : Binary64) (isNegative : Bool) :
    ∃ w : Binary64, w.negative = isNegative ∧ w.magnitude = z.magnitude ∧ w.isNaN = z.isNaN := by
  have fieldBound := z.exponentField_lt
  have fractionBound := z.fraction_lt
  have fits : z.exponentField * 2 ^ 52 + z.fraction < 2 ^ 63 := by omega
  have field : (normal isNegative z.exponentField z.fraction).exponentField = z.exponentField := by
    rw [normal, exponentField_ofMagnitude fits]
    omega
  have fraction : (normal isNegative z.exponentField z.fraction).fraction = z.fraction := by
    rw [normal, fraction_ofMagnitude fits]
    omega
  refine ⟨normal isNegative z.exponentField z.fraction, negative_ofMagnitude fits, ?_, ?_⟩
  · rw [magnitude, magnitude, significand, significand, exponent, exponent, field, fraction]
  · rw [isNaN, isNaN, field, fraction]

theorem value_of_sign {z : Binary64} {isNegative : Bool} (sign : z.negative = isNegative)
    (size : ℚ) : |z.value - signFactor isNegative * size| = |z.magnitude - size| := by
  rw [value, sign, ← mul_sub, abs_mul, abs_signFactor, one_mul]

/-- The sizes are at most as far apart as the numbers. -/
theorem abs_magnitude_sub_le (z : Binary64) {ratio size : ℚ} (sizeEq : |ratio| = size) :
    |z.magnitude - size| ≤ |z.value - ratio| := by
  rw [← abs_value, ← sizeEq]
  exact abs_abs_sub_abs_le z.value ratio

end Sizes

section Middle

variable {low high point : ℚ} (order : low < high)

include order

theorem low_closest_iff : |low - point| ≤ |high - point| ↔ 2 * point ≤ low + high := by
  constructor
  · intro closest
    by_contra! beyond
    rcases abs_cases (low - point) with ⟨eq, _⟩ | ⟨eq, _⟩ <;>
      rcases abs_cases (high - point) with ⟨eq', _⟩ | ⟨eq', _⟩ <;> linarith
  · intro within
    rw [abs_of_pos (by linarith : 0 < high - point), abs_le]
    constructor <;> linarith

theorem high_closest_iff : |high - point| ≤ |low - point| ↔ low + high ≤ 2 * point := by
  have mirrored : |-high - -point| ≤ |-low - -point| ↔ 2 * -point ≤ -high + -low :=
    low_closest_iff (neg_lt_neg order)
  rw [neg_sub_neg, neg_sub_neg, abs_sub_comm point, abs_sub_comm point] at mirrored
  rw [mirrored]
  constructor <;> intro middle <;> linarith

end Middle

/-- The largest finite number is odd, and one step below `2 ^ 1024`. -/
theorem largest_parts : (normal false 2046 (2 ^ 52 - 1)).significand = 2 ^ 53 - 1 ∧
    (normal false 2046 (2 ^ 52 - 1)).magnitude = 2 ^ (1024 : Int) - 2 * 2 ^ (970 : Int) := by
  have places : ((2 ^ 52 + (2 ^ 52 - 1) : Nat) : ℚ) = 2 ^ 53 - 1 := by norm_num
  constructor
  · rw [significand_normal (by decide) (by decide) (by decide)]
  · rw [magnitude_normal (by decide) (by decide) (by decide), places, ← largest_size]
    rfl

/-- The smallest number above zero is odd, and the unit of the smallest numbers. -/
theorem smallest_parts : (ofMagnitude false 1).significand = 1 ∧
    (ofMagnitude false 1).magnitude = 2 * 2 ^ (-1075 : Int) := by
  have significandEq : (ofMagnitude false 1).significand = 1 := by decide
  have exponentEq : (ofMagnitude false 1).exponent = -1074 := by decide
  refine ⟨significandEq, ?_⟩
  rw [magnitude, significandEq, exponentEq, smallest_size, Nat.cast_one, one_mul]

namespace IsNearest

variable {ratio size : ℚ} {y : Binary64} (isNearest : y.IsNearest ratio) (sizeEq : |ratio| = size)

include isNearest sizeEq

/-- The number of each size with the sign of the rational is a competitor. -/
theorem sizes {w : Binary64} (isNumber : w.isNaN = false) :
    |y.magnitude - size| ≤ |w.magnitude - size| ∧
      (w.magnitude ≠ y.magnitude → |w.magnitude - size| = |y.magnitude - size| →
        y.significand % 2 = 0) := by
  obtain ⟨z, sign, sameSize, sameKind⟩ := w.exists_signed (decide (ratio < 0))
  have signed : ratio = signFactor (decide (ratio < 0)) * size := by
    rw [← sizeEq, signFactor]
    by_cases below : ratio < 0
    · simp [below, abs_of_neg]
    · simp [below, abs_of_nonneg (not_lt.mp below)]
  have distance : |z.value - ratio| = |w.magnitude - size| := by
    conv_lhs => rw [signed]
    rw [value_of_sign sign, sameSize]
  have below := y.abs_magnitude_sub_le sizeEq
  have closest := isNearest.closest z (sameKind ▸ isNumber)
  refine ⟨below.trans (closest.trans distance.le), ?_⟩
  intro differs tie
  apply isNearest.even z (sameKind ▸ isNumber)
  · intro same
    apply differs
    rw [← sameSize, ← abs_value, ← abs_value, same]
  · exact le_antisymm (distance.le.trans (tie.le.trans below)) closest

/-- A number is infinite from the middle between the largest finite number and `2 ^ 1024` on. -/
theorem isInfinite_iff :
    y.isInfinite = true ↔ (2 : ℚ) ^ (1024 : Int) - 2 ^ (970 : Int) ≤ size := by
  obtain ⟨largestOdd, largestSize⟩ := largest_parts
  have infinitySize : (infinity false).magnitude = 2 ^ (1024 : Int) :=
    magnitude_of_isInfinite (by decide)
  have halfPositive := twoPower_pos 970
  constructor
  · intro infinite
    have closest := (isNearest.sizes sizeEq (w := normal false 2046 (2 ^ 52 - 1)) (by decide)).1
    rw [largestSize, magnitude_of_isInfinite infinite] at closest
    generalize (2 : ℚ) ^ (1024 : Int) = top, (2 : ℚ) ^ (970 : Int) = half at *
    rw [high_closest_iff (by linarith)] at closest
    linarith
  · intro large
    by_contra notInfinite
    have finite := isFinite_of_not (by simp [isNearest.isNumber]) notInfinite
    have below := magnitude_le_of_isFinite finite
    obtain ⟨closest, even⟩ := isNearest.sizes sizeEq (w := infinity false) (by decide)
    rw [infinitySize] at closest even
    generalize (2 : ℚ) ^ (1024 : Int) = top, (2 : ℚ) ^ (970 : Int) = half at *
    have order : y.magnitude < top := by linarith
    have middle := (low_closest_iff order).mp closest
    have tie := le_antisymm ((high_closest_iff order).mpr (by linarith)) closest
    have isEven := even order.ne' tie
    have same : y.magnitude = (normal false 2046 (2 ^ 52 - 1)).magnitude := by linarith
    rw [(parts_of_magnitude_eq same).1, largestOdd] at isEven
    exact absurd isEven (by decide)

/-- A number is zero up to the middle between zero and the smallest number above it. -/
theorem isZero_iff : y.isZero = true ↔ size ≤ (2 : ℚ) ^ (-1075 : Int) := by
  obtain ⟨smallestOdd, smallestSize⟩ := smallest_parts
  have halfPositive := twoPower_pos (-1075)
  constructor
  · intro isZero
    have closest := (isNearest.sizes sizeEq (w := ofMagnitude false 1) (by decide)).1
    rw [smallestSize, magnitude_of_isZero isZero, low_closest_iff (by linarith)] at closest
    linarith
  · intro small
    by_contra notZero
    have above := magnitude_ge (by simpa using notZero)
    obtain ⟨closest, even⟩ := isNearest.sizes sizeEq (w := zero false) (by decide)
    rw [magnitude_of_isZero (by decide : (zero false).isZero = true)] at closest even
    have order : 0 < y.magnitude := by linarith
    have middle := (high_closest_iff order).mp closest
    have tie := le_antisymm ((low_closest_iff order).mpr (by linarith)) closest
    have isEven := even order.ne tie
    have same : y.magnitude = (ofMagnitude false 1).magnitude := by linarith
    rw [(parts_of_magnitude_eq same).1, smallestOdd] at isEven
    exact absurd isEven (by decide)

end IsNearest

end CompiledCode.Binary64
