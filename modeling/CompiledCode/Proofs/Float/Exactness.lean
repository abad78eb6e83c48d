import CompiledCode.Float.Scaling
import CompiledCode.Proofs.Float.Fields
import Mathlib.Data.Int.Log
import Mathlib.Data.Rat.Floor
import Mathlib.Tactic.FieldSimp
import Mathlib.Tactic.Linarith
import Mathlib.Tactic.NormNum
import Mathlib.Tactic.Positivity
import Mathlib.Tactic.Ring

/-!
Rounding keeps what needs no rounding: a quotient that is the magnitude of some number is rounded
to this number. So a number that is split into a mantissa and a power of two is put together again
without an error, in one step or in two.
-/

namespace CompiledCode.Binary64

/-- The size of a finite number as a rational number. -/
def magnitude (x : Binary64) : ℚ := x.significand * 2 ^ x.exponent

theorem twoPower_pos (power : Int) : (0 : ℚ) < 2 ^ power := zpow_pos (by norm_num) power

/-- A power of two is a quotient of two natural powers of two. -/
theorem twoPower_eq (power : Int) :
    (2 : ℚ) ^ power = 2 ^ power.toNat / 2 ^ (-power).toNat := by
  have difference : power = (power.toNat : Int) - ((-power).toNat : Int) := by omega
  conv_lhs => rw [difference, zpow_sub₀ (by norm_num), zpow_natCast, zpow_natCast]

theorem scaled_quotient (numerator denominator : Nat) (power : Int) :
    ((numerator * 2 ^ (-power).toNat : Nat) : ℚ) / (denominator * 2 ^ power.toNat : Nat) =
      (numerator : ℚ) / denominator / 2 ^ power := by
  push_cast
  rw [twoPower_eq]
  by_cases zero : (denominator : ℚ) = 0
  · simp [zero]
  · field_simp

theorem log_eq {ratio : ℚ} {power : Int} (positive : 0 < ratio) (low : (2 : ℚ) ^ power ≤ ratio)
    (high : ratio < (2 : ℚ) ^ (power + 1)) : Int.log 2 ratio = power := by
  have atLeast := (Int.zpow_le_iff_le_log (b := 2) (by decide) positive).mp (by exact_mod_cast low)
  have below := (Int.lt_zpow_iff_log_lt (b := 2) (by decide) positive).mp (by exact_mod_cast high)
  omega

/-- The estimate from the binary lengths is at most one too large. -/
theorem floorLog2_eq_log {numerator denominator : Nat} (numeratorPositive : 0 < numerator)
    (denominatorPositive : 0 < denominator) :
    floorLog2 numerator denominator = Int.log 2 ((numerator : ℚ) / denominator) := by
  have denominatorCast : (0 : ℚ) < denominator := by exact_mod_cast denominatorPositive
  have positive : (0 : ℚ) < (numerator : ℚ) / denominator := by positivity
  set estimate : Int := (Nat.log2 numerator : Int) - Nat.log2 denominator with estimateEq
  have test : denominator * 2 ^ estimate.toNat ≤ numerator * 2 ^ (-estimate).toNat ↔
      (2 : ℚ) ^ estimate ≤ (numerator : ℚ) / denominator := by
    rw [twoPower_eq, div_le_div_iff₀ (by positivity) denominatorCast, mul_comm denominator]
    exact_mod_cast Iff.rfl
  have numeratorLow : (2 : ℚ) ^ (Nat.log2 numerator) ≤ numerator := by
    exact_mod_cast Nat.log2_self_le (by omega)
  have numeratorHigh : (numerator : ℚ) < 2 ^ (Nat.log2 numerator + 1) := by
    exact_mod_cast Nat.lt_log2_self
  have denominatorLow : (2 : ℚ) ^ (Nat.log2 denominator) ≤ denominator := by
    exact_mod_cast Nat.log2_self_le (by omega)
  have denominatorHigh : (denominator : ℚ) < 2 ^ (Nat.log2 denominator + 1) := by
    exact_mod_cast Nat.lt_log2_self
  have low : (2 : ℚ) ^ (estimate - 1) ≤ (numerator : ℚ) / denominator := by
    have power : (2 : ℚ) ^ (estimate - 1) =
        2 ^ (Nat.log2 numerator) / 2 ^ (Nat.log2 denominator + 1) := by
      rw [← zpow_natCast, ← zpow_natCast, ← zpow_sub₀ (by norm_num)]
      congr 1
      push_cast
      omega
    rw [power, div_le_div_iff₀ (by positivity) denominatorCast]
    exact mul_le_mul numeratorLow denominatorHigh.le denominatorCast.le (by positivity)
  have high : (numerator : ℚ) / denominator < (2 : ℚ) ^ (estimate + 1) := by
    have power : (2 : ℚ) ^ (estimate + 1) =
        2 ^ (Nat.log2 numerator + 1) / 2 ^ (Nat.log2 denominator) := by
      rw [← zpow_natCast, ← zpow_natCast, ← zpow_sub₀ (by norm_num)]
      congr 1
      push_cast
      omega
    rw [power, div_lt_div_iff₀ denominatorCast (by positivity)]
    exact mul_lt_mul numeratorHigh denominatorLow (by positivity) (by positivity)
  rw [floorLog2, ← estimateEq]
  split
  · rename_i fits
    exact (log_eq positive (test.mp fits) high).symm
  · rename_i large
    have below : (numerator : ℚ) / denominator < (2 : ℚ) ^ estimate := by
      rw [test, not_le] at large
      exact large
    exact (log_eq positive low (by rwa [sub_add_cancel])).symm

theorem roundQuotient_mul {whole denominator : Nat} (positive : 0 < denominator) :
    roundQuotient (whole * denominator) denominator = whole := by
  rw [roundQuotient, Nat.mul_div_cancel _ positive, Nat.mul_mod_left]
  exact if_pos (.inl (by omega))

/-- The unit of a number is worth its power of two, in the normal and the subnormal range. -/
theorem unit_eq {x : Binary64} (filled : 0 < x.significand) :
    max (Int.log 2 x.magnitude - 52) (-1074) = x.exponent := by
  have powerPositive := twoPower_pos x.exponent
  have positive : 0 < x.magnitude := by
    have cast : (0 : ℚ) < x.significand := by exact_mod_cast filled
    exact mul_pos cast powerPositive
  have below : x.significand < 2 ^ 53 := x.significand_lt
  by_cases subnormal : x.exponentField = 0
  · have exponentEq : x.exponent = -1074 := by
      rw [exponent, subnormal]
      rfl
    have small : x.significand < 2 ^ 52 := by
      rw [significand, if_pos subnormal]
      exact x.fraction_lt
    have bound : x.magnitude < (2 : ℚ) ^ (-1022 : Int) := by
      have cast : (x.significand : ℚ) < 2 ^ (52 : Int) := by exact_mod_cast small
      rw [magnitude, exponentEq, show (-1022 : Int) = 52 + -1074 by rfl, zpow_add₀ (by norm_num)]
      exact mul_lt_mul_of_pos_right cast (twoPower_pos _)
    have log := (Int.lt_zpow_iff_log_lt (b := 2) (by decide) positive).mp (by exact_mod_cast bound)
    omega
  · have large : 2 ^ 52 ≤ x.significand := by
      rw [significand, if_neg subnormal]
      exact Nat.le_add_right _ _
    have log : Int.log 2 x.magnitude = 52 + x.exponent := by
      apply log_eq positive
      · have cast : (2 : ℚ) ^ (52 : Int) ≤ x.significand := by exact_mod_cast large
        rw [magnitude, zpow_add₀ (by norm_num)]
        exact mul_le_mul_of_nonneg_right cast powerPositive.le
      · have cast : (x.significand : ℚ) < 2 ^ (53 : Int) := by exact_mod_cast below
        rw [magnitude, show (52 : Int) + x.exponent + 1 = 53 + x.exponent by ring,
          zpow_add₀ (by norm_num)]
        exact mul_lt_mul_of_pos_right cast powerPositive
    have low : -1074 ≤ x.exponent := by
      rw [exponent]
      omega
    omega

/-- The bits below the sign are the significand on top of the steps of the exponent. -/
theorem ofMagnitude_significand (x : Binary64) :
    ofMagnitude x.negative ((x.exponent + 1074).toNat * 2 ^ 52 + x.significand) = x := by
  have bits : (x.exponent + 1074).toNat * 2 ^ 52 + x.significand =
      x.exponentField * 2 ^ 52 + x.fraction := by
    rw [exponent, significand]
    split <;> omega
  rw [bits, ofMagnitude_fields]

/-- A quotient that is the magnitude of a finite number is rounded to this number. -/
theorem nearest_magnitude {y : Binary64} (finite : y.isFinite = true) {numerator denominator : Nat}
    (denominatorPositive : 0 < denominator)
    (value : (numerator : ℚ) / denominator = y.magnitude) :
    nearest y.negative numerator denominator = y := by
  have denominatorCast : (0 : ℚ) < denominator := by exact_mod_cast denominatorPositive
  have fieldBound := isFinite_iff.mp finite
  rw [nearest]
  split
  · rename_i none
    have zero : y.significand = 0 := by
      rw [none, magnitude, Nat.cast_zero, zero_div] at value
      have factors := mul_eq_zero.mp value.symm
      exact_mod_cast factors.resolve_right (twoPower_pos _).ne'
    have subnormal : y.exponentField = 0 := by
      by_contra isNormal
      rw [significand, if_neg isNormal] at zero
      omega
    have rebuilt := ofMagnitude_significand y
    rw [zero, exponent, subnormal] at rebuilt
    exact rebuilt
  · rename_i some
    have filled : 0 < y.significand := by
      apply Nat.pos_of_ne_zero
      intro zero
      rw [magnitude, zero, Nat.cast_zero, zero_mul] at value
      have factors := (div_eq_zero_iff.mp value).resolve_right denominatorCast.ne'
      exact some (by exact_mod_cast factors)
    have exactQuotient : numerator * 2 ^ (-y.exponent).toNat =
        y.significand * (denominator * 2 ^ y.exponent.toNat) := by
      have scaled := scaled_quotient numerator denominator y.exponent
      rw [value, magnitude, mul_div_cancel_right₀ _ (twoPower_pos _).ne',
        div_eq_iff (by positivity)] at scaled
      exact_mod_cast scaled
    have bits : (y.exponent + 1074).toNat * 2 ^ 52 + y.significand < 2047 * 2 ^ 52 := by
      have fractionBound := y.fraction_lt
      rw [exponent, significand]
      split <;> omega
    rw [floorLog2_eq_log (Nat.pos_of_ne_zero some) denominatorPositive, value, unit_eq filled]
    dsimp only
    rw [exactQuotient, roundQuotient_mul (by positivity), if_pos bits, ofMagnitude_significand]

/-- A product with a power of two that is a number is this number. -/
theorem timesPowerOfTwo_eq {x y : Binary64} {power : Int} (xFinite : x.isFinite = true)
    (yFinite : y.isFinite = true) (sameSign : y.negative = x.negative)
    (value : y.magnitude = x.magnitude * 2 ^ power) : x.timesPowerOfTwo power = y := by
  have scaled : ((x.significand * 2 ^ (x.exponent + power).toNat : Nat) : ℚ) /
      (2 ^ (-(x.exponent + power)).toNat : Nat) = y.magnitude := by
    rw [value, magnitude, mul_assoc, ← zpow_add₀ (by norm_num), twoPower_eq (x.exponent + power)]
    push_cast
    ring
  rw [timesPowerOfTwo, if_pos xFinite, ← sameSign]
  exact nearest_magnitude yFinite (by positivity) scaled

end CompiledCode.Binary64
