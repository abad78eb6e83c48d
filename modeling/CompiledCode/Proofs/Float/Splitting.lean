import CompiledCode.Proofs.Float.Exactness

/-!
A number is its mantissa times its power of two, and the scaling steps give the number back.
-/

namespace CompiledCode.Binary64

section Normal

variable {isNegative : Bool} {field part : Nat} (positive : 1 ≤ field) (isField : field ≤ 2046)
  (isFraction : part < 2 ^ 52)

include positive isField isFraction

theorem magnitude_normal : (normal isNegative field part).magnitude =
    (2 ^ 52 + part : Nat) * (2 : ℚ) ^ ((field : Int) - 1075) := by
  rw [magnitude, significand_normal positive isField isFraction,
    exponent_normal positive isField isFraction]

/-- A power of two moves the exponent field as long as the number stays normal. -/
theorem normal_timesPowerOfTwo {power : Int} {moved : Nat} (movedEq : (moved : Int) = field + power)
    (movedPositive : 1 ≤ moved) (movedField : moved ≤ 2046) :
    (normal isNegative field part).timesPowerOfTwo power = normal isNegative moved part := by
  apply timesPowerOfTwo_eq (isFinite_normal isField isFraction)
    (isFinite_normal movedField isFraction)
  · rw [negative_normal isField isFraction, negative_normal movedField isFraction]
  · rw [magnitude_normal positive isField isFraction,
      magnitude_normal movedPositive movedField isFraction, mul_assoc, ← zpow_add₀ (by norm_num)]
    congr 2
    omega

end Normal

theorem normal_fields (x : Binary64) : normal x.negative x.exponentField x.fraction = x :=
  ofMagnitude_fields x

/-- A power of two that is taken out of the exponent field is put back by a product. -/
theorem magnitude_half {isNegative : Bool} {field part : Nat} (positive : 1 ≤ field)
    (isField : field ≤ 2046) (isFraction : part < 2 ^ 52) :
    (normal isNegative 1022 part).magnitude * 2 ^ ((field : Int) - 1022) =
      (normal isNegative field part).magnitude := by
  rw [magnitude_normal (by decide) (by decide) isFraction,
    magnitude_normal positive isField isFraction, mul_assoc, ← zpow_add₀ (by norm_num)]
  congr 2
  omega

theorem splitNormal_normal {isNegative : Bool} {field part : Nat} (isField : field ≤ 2046)
    (isFraction : part < 2 ^ 52) :
    (normal isNegative field part).splitNormal =
      (normal isNegative 1022 part, (field : Int) - 1022) := by
  rw [splitNormal, negative_normal isField isFraction, exponentField_normal isField isFraction,
    fraction_normal isField isFraction, normal]

/-- A number below the normal range is normal after 64 doublings. -/
theorem subnormal_timesPowerOfTwo {x : Binary64} (subnormal : x.exponentField = 0)
    (filled : x.isZero = false) :
    ∃ field part, part < 2 ^ 52 ∧ 13 ≤ field ∧ field ≤ 64 ∧
      x.timesPowerOfTwo 64 = normal x.negative field part ∧
      (normal x.negative field part).magnitude = x.magnitude * 2 ^ (64 : Int) := by
  have fractionBound := x.fraction_lt
  have significandEq : x.significand = x.fraction := if_pos subnormal
  have some : x.fraction ≠ 0 := by
    intro zero
    rw [isZero, subnormal, zero] at filled
    exact absurd filled (by decide)
  have length : Nat.log2 x.fraction < 52 := (Nat.log2_lt some).mpr fractionBound
  have low := Nat.log2_self_le some
  have high := Nat.lt_log2_self (n := x.fraction)
  set places := Nat.log2 x.fraction with placesEq
  have shifted : 2 ^ 52 ≤ x.fraction * 2 ^ (52 - places) := by
    calc 2 ^ 52 = 2 ^ places * 2 ^ (52 - places) := by rw [← Nat.pow_add]; congr 1; omega
      _ ≤ x.fraction * 2 ^ (52 - places) := Nat.mul_le_mul_right _ low
  have bounded : x.fraction * 2 ^ (52 - places) < 2 ^ 53 := by
    calc x.fraction * 2 ^ (52 - places) < 2 ^ (places + 1) * 2 ^ (52 - places) :=
          Nat.mul_lt_mul_of_pos_right high (by positivity)
      _ = 2 ^ 53 := by rw [← Nat.pow_add]; congr 1; omega
  have isFraction : x.fraction * 2 ^ (52 - places) - 2 ^ 52 < 2 ^ 52 := by omega
  have exponentEq : x.exponent = -1074 := by
    rw [exponent, subnormal]
    rfl
  have value : (normal x.negative (13 + places) (x.fraction * 2 ^ (52 - places) - 2 ^ 52)).magnitude =
      x.magnitude * 2 ^ (64 : Int) := by
    rw [magnitude_normal (by omega) (by omega) isFraction, Nat.add_sub_cancel' shifted, magnitude,
      significandEq, exponentEq, Nat.cast_mul, Nat.cast_pow, Nat.cast_ofNat, mul_assoc, mul_assoc,
      ← zpow_natCast, ← zpow_add₀ (by norm_num), ← zpow_add₀ (by norm_num)]
    congr 2
    omega
  refine ⟨13 + places, _, isFraction, by omega, by omega, ?_, value⟩
  apply timesPowerOfTwo_eq (isFinite_iff.mpr (by omega)) (isFinite_normal (by omega) isFraction)
  · exact negative_normal (by omega) isFraction
  · exact value

/-- The mantissa of a number that is split has the exponent field of one half. -/
theorem split_eq {x : Binary64} (finite : x.isFinite = true) (filled : x.isZero = false) :
    ∃ part power, part < 2 ^ 52 ∧ -1073 ≤ power ∧ power ≤ 1024 ∧
      x.split = (normal x.negative 1022 part, power) ∧
      (normal x.negative 1022 part).magnitude * 2 ^ power = x.magnitude := by
  have fieldBound := isFinite_iff.mp finite
  have takenApart : (x.isZero || !x.isFinite) = false := by rw [filled, finite]; rfl
  rw [split, if_neg (by rw [takenApart]; decide)]
  by_cases subnormal : x.exponentField = 0
  · obtain ⟨field, part, isFraction, low, high, doubled, value⟩ :=
      subnormal_timesPowerOfTwo subnormal filled
    refine ⟨part, (field : Int) - 1022 - 64, isFraction, by omega, by omega, ?_, ?_⟩
    · rw [if_pos subnormal, doubled, splitNormal_normal (by omega) isFraction]
    · rw [zpow_sub₀ (by norm_num), ← mul_div_assoc, magnitude_half (by omega) (by omega) isFraction,
        value, mul_div_cancel_right₀ _ (twoPower_pos 64).ne']
  · refine ⟨x.fraction, (x.exponentField : Int) - 1022, x.fraction_lt, by omega, by omega, ?_, ?_⟩
    · rw [if_neg subnormal]
      conv_lhs => rw [← normal_fields x]
      exact splitNormal_normal fieldBound x.fraction_lt
    · rw [magnitude_half (by omega) fieldBound x.fraction_lt, normal_fields]

/-- The scaling steps put a mantissa and its power of two together without an error. -/
theorem scale_normal {x : Binary64} {part : Nat} {power : Int} (finite : x.isFinite = true)
    (isFraction : part < 2 ^ 52) (low : -1073 ≤ power) (high : power ≤ 1024)
    (value : (normal x.negative 1022 part).magnitude * 2 ^ power = x.magnitude) :
    (normal x.negative 1022 part).scale power = x := by
  -- The last step gives `x` from any normal number that the steps before it have reached.
  have lastStep : ∀ {field : Nat} {rest : Int}, 1 ≤ field → field ≤ 2046 →
      (field : Int) + rest = 1022 + power →
      (normal x.negative field part).timesPowerOfTwo rest = x := by
    intro field rest positive isField total
    apply timesPowerOfTwo_eq (isFinite_normal isField isFraction) finite
    · exact (negative_normal isField isFraction).symm
    · rw [← value, ← magnitude_half positive isField isFraction, mul_assoc,
        ← zpow_add₀ (by norm_num)]
      congr 2
      omega
  rw [scale, scalingSteps]
  by_cases large : 1023 < power
  · have raised : (normal x.negative 1022 part).timesPowerOfTwo 1023 =
        normal x.negative 2045 part :=
      normal_timesPowerOfTwo (by decide) (by decide) isFraction (by decide) (by decide) (by decide)
    rw [if_pos large, if_neg (by omega), List.foldl_cons, List.foldl_cons, List.foldl_nil, raised]
    exact lastStep (by decide) (by decide) (by omega)
  · by_cases small : power < -1022
    · have lowered : (normal x.negative 1022 part).timesPowerOfTwo (-969) =
          normal x.negative 53 part :=
        normal_timesPowerOfTwo (by decide) (by decide) isFraction (by decide) (by decide)
          (by decide)
      rw [if_neg large, if_pos small, if_neg (by omega), List.foldl_cons, List.foldl_cons,
        List.foldl_nil, lowered]
      exact lastStep (by decide) (by decide) (by omega)
    · rw [if_neg large, if_neg small, List.foldl_cons, List.foldl_nil]
      exact lastStep (by decide) (by decide) (by omega)

end CompiledCode.Binary64
