import CompiledCode.Proofs.Float.Rounding

/-!
The way of rounding finds the nearest number. Numbers that are not finer than the last place of a
rational are whole multiples of it, and the finer ones all lie below the rational, behind one of the
multiples. So a rational is rounded to the whole number of last places next to it.
-/

namespace CompiledCode.Binary64

section Whole

/-- A rounded quotient is at most one half away, and even where it is that far away. -/
theorem roundQuotient_near (numerator denominator : Nat) (positive : 0 < denominator) :
    |(roundQuotient numerator denominator : ℚ) - numerator / denominator| ≤ 1 / 2 ∧
      (|(roundQuotient numerator denominator : ℚ) - numerator / denominator| = 1 / 2 →
        roundQuotient numerator denominator % 2 = 0) := by
  have parts := Nat.div_add_mod numerator denominator
  have rest := Nat.mod_lt numerator positive
  set rounded := roundQuotient numerator denominator with roundedEq
  set error : Int := ((denominator * rounded : Nat) : Int) - numerator with errorEq
  have bound : 2 * error.natAbs ≤ denominator ∧
      (2 * error.natAbs = denominator → rounded % 2 = 0) := by
    rw [roundQuotient] at roundedEq
    split at roundedEq
    · rw [roundedEq] at errorEq ⊢
      omega
    · rw [roundedEq, Nat.mul_succ] at errorEq
      rw [roundedEq]
      omega
  have cast : (0 : ℚ) < denominator := by exact_mod_cast positive
  have distance : |(rounded : ℚ) - numerator / denominator| = (error.natAbs : ℚ) / denominator := by
    have quotient : (rounded : ℚ) - numerator / denominator = (error : ℚ) / denominator := by
      rw [errorEq]
      push_cast
      field_simp
    rw [quotient, abs_div, abs_of_pos cast, Nat.cast_natAbs, Int.cast_abs]
  rw [distance, div_le_div_iff₀ cast two_pos, div_eq_div_iff cast.ne' two_ne_zero]
  constructor
  · rw [mul_comm, one_mul]
    exact_mod_cast bound.1
  · intro tie
    apply bound.2
    rw [mul_comm, one_mul] at tie
    exact_mod_cast tie

variable {point : ℚ} {rounded other : Nat} (near : |(rounded : ℚ) - point| ≤ 1 / 2)
  (differs : other ≠ rounded)

include near differs

/-- Next to a whole number that is at most one half away, every other one is at least as far. -/
theorem half_le_distance : 1 / 2 ≤ |(other : ℚ) - point| := by
  have apart : (1 : ℚ) ≤ |(other : ℚ) - rounded| := by
    have whole : (1 : Int) ≤ |(other : Int) - rounded| := Int.one_le_abs (by omega)
    exact_mod_cast whole
  have triangle := abs_sub_le (other : ℚ) point rounded
  rw [abs_sub_comm point] at triangle
  linarith

/-- Two whole numbers with a point in their middle are not both even. -/
theorem parity_of_tie (tie : |(other : ℚ) - point| = |(rounded : ℚ) - point|) :
    |(rounded : ℚ) - point| = 1 / 2 ∧ other % 2 ≠ rounded % 2 := by
  have half : |(rounded : ℚ) - point| = 1 / 2 :=
    le_antisymm near (tie ▸ half_le_distance near differs)
  refine ⟨half, ?_⟩
  rcases (abs_eq (by norm_num)).mp half with right | left <;>
    rcases (abs_eq (by norm_num)).mp (tie.trans half) with otherRight | otherLeft
  · exact absurd (by exact_mod_cast (by linarith : (other : ℚ) = rounded)) differs
  · have next : (rounded : ℚ) = (other + 1 : Nat) := by push_cast; linarith
    have whole : rounded = other + 1 := by exact_mod_cast next
    omega
  · have next : (other : ℚ) = (rounded + 1 : Nat) := by push_cast; linarith
    have whole : other = rounded + 1 := by exact_mod_cast next
    omega
  · exact absurd (by exact_mod_cast (by linarith : (other : ℚ) = rounded)) differs

end Whole

/-- The power of two that the last place of the numbers around a rational is worth. -/
def lastPlace (ratio : ℚ) : Int := max (Int.log 2 ratio - 52) (-1074)

/-- No number's size is closer, and where another one is as close it is odd and the nearest even. -/
structure IsNearestSize (size : ℚ) (y : Binary64) : Prop where
  isNumber : y.isNaN = false
  closest : ∀ z : Binary64, z.isNaN = false → |y.magnitude - size| ≤ |z.magnitude - size|
  parity : ∀ z : Binary64, z.isNaN = false → z.magnitude ≠ y.magnitude →
    |z.magnitude - size| = |y.magnitude - size| →
      y.significand % 2 = 0 ∧ z.significand % 2 = 1

/-- The whole number of last places that a rational is rounded to. -/
structure RoundsTo (ratio : ℚ) (rounded : Nat) : Prop where
  near : |(rounded : ℚ) - ratio / 2 ^ lastPlace ratio| ≤ 1 / 2
  even : |(rounded : ℚ) - ratio / 2 ^ lastPlace ratio| = 1 / 2 → rounded % 2 = 0

section Places

/-- A number not finer than a place is a multiple of it, and an odd multiple only if it is odd. -/
theorem exists_places {z : Binary64} {place : Int} (notFiner : place ≤ z.exponent) :
    ∃ places : Nat, z.magnitude = places * 2 ^ place ∧
      (z.significand % 2 = 0 → places % 2 = 0) := by
  refine ⟨z.significand * 2 ^ (z.exponent - place).toNat, ?_, ?_⟩
  · rw [magnitude, Nat.cast_mul, Nat.cast_pow, Nat.cast_ofNat, mul_assoc, ← zpow_natCast,
      ← zpow_add₀ (by norm_num)]
    congr 2
    omega
  · intro even
    rw [Nat.mul_mod, even, Nat.zero_mul, Nat.zero_mod]

/-- A number that is finer than a place is below the normal numbers with this last place. -/
theorem magnitude_lt_of_finer {z : Binary64} {place : Int} (finer : z.exponent < place) :
    z.magnitude < (2 : ℚ) ^ (52 + place) := by
  have below : (z.significand : ℚ) < 2 ^ (53 : Int) := by exact_mod_cast z.significand_lt
  calc z.magnitude < 2 ^ (53 : Int) * 2 ^ z.exponent :=
        mul_lt_mul_of_pos_right below (twoPower_pos _)
    _ = 2 ^ (53 + z.exponent) := (zpow_add₀ (by norm_num) _ _).symm
    _ ≤ 2 ^ (52 + place) := zpow_le_zpow_right₀ (by norm_num) (by omega)

theorem distance_places (ratio : ℚ) (places : Nat) (place : Int) :
    |(places : ℚ) * 2 ^ place - ratio| = |(places : ℚ) - ratio / 2 ^ place| * 2 ^ place := by
  have power := twoPower_pos place
  rw [← abs_of_pos power, ← abs_mul, abs_of_pos power, sub_mul, div_mul_cancel₀ _ power.ne']

theorem ratio_lt_lastPlace (ratio : ℚ) : ratio < (2 : ℚ) ^ (53 + lastPlace ratio) := by
  have high : ratio < (2 : ℚ) ^ (Int.log 2 ratio + 1) := by
    exact_mod_cast Int.lt_zpow_succ_log_self (b := 2) (by decide) ratio
  apply high.trans_le (zpow_le_zpow_right₀ (by norm_num) _)
  rw [lastPlace]
  omega

variable {ratio : ℚ} (positive : 0 < ratio)

include positive

theorem lastPlace_le_ratio (notSmallest : -1074 < lastPlace ratio) :
    (2 : ℚ) ^ (52 + lastPlace ratio) ≤ ratio := by
  have same : 52 + lastPlace ratio = Int.log 2 ratio := by
    rw [lastPlace] at notSmallest ⊢
    omega
  rw [same]
  exact_mod_cast Int.zpow_log_le_self (b := 2) (by decide) positive

end Places

namespace RoundsTo

variable {ratio : ℚ} {rounded : Nat} (rounds : RoundsTo ratio rounded) (positive : 0 < ratio)

include rounds

theorem le : rounded ≤ 2 ^ 53 := by
  have power := twoPower_pos (lastPlace ratio)
  have high : ratio / 2 ^ lastPlace ratio < 2 ^ (53 : Int) := by
    rw [div_lt_iff₀ power, ← zpow_add₀ (by norm_num)]
    exact ratio_lt_lastPlace ratio
  have near := (abs_le.mp rounds.near).2
  have below : (rounded : ℚ) < (2 ^ 53 + 1 : Nat) := by
    push_cast
    have bound : (2 : ℚ) ^ (53 : Int) = 2 ^ 53 := by norm_num
    linarith
  exact Nat.lt_succ_iff.mp (by exact_mod_cast below)

include positive

theorem ge (notSmallest : -1074 < lastPlace ratio) : 2 ^ 52 ≤ rounded := by
  have power := twoPower_pos (lastPlace ratio)
  have low : 2 ^ (52 : Int) ≤ ratio / 2 ^ lastPlace ratio := by
    rw [le_div_iff₀ power, ← zpow_add₀ (by norm_num)]
    exact lastPlace_le_ratio positive notSmallest
  have near := (abs_le.mp rounds.near).1
  have above : ((2 ^ 52 : Nat) : ℚ) < (rounded + 1 : Nat) := by
    push_cast
    have bound : (2 : ℚ) ^ (52 : Int) = 2 ^ 52 := by norm_num
    linarith
  exact Nat.lt_succ_iff.mp (by exact_mod_cast above)

/-- A finer number is further away than the rounded one, as the last multiple below the rational is
already closer. -/
theorem lt_of_finer {z : Binary64} (finer : z.exponent < lastPlace ratio) :
    |(rounded : ℚ) * 2 ^ lastPlace ratio - ratio| < |z.magnitude - ratio| := by
  have low := lastPlace_le_ratio positive (z.exponent_ge.trans_lt finer)
  have below := (magnitude_lt_of_finer finer).trans_le low
  have multiple : |(rounded : ℚ) * 2 ^ lastPlace ratio - ratio| ≤
      |((2 ^ 52 : Nat) : ℚ) * 2 ^ lastPlace ratio - ratio| := by
    rw [distance_places, distance_places]
    apply mul_le_mul_of_nonneg_right _ (twoPower_pos _).le
    by_cases same : 2 ^ 52 = rounded
    · rw [same]
    · exact rounds.near.trans (half_le_distance rounds.near same)
  have first : ((2 ^ 52 : Nat) : ℚ) * 2 ^ lastPlace ratio = 2 ^ (52 + lastPlace ratio) := by
    rw [zpow_add₀ (by norm_num), Nat.cast_pow]
    rfl
  rw [first, abs_sub_comm _ ratio, abs_sub_comm _ ratio, abs_of_nonneg (sub_nonneg.mpr low)]
    at multiple
  rw [abs_sub_comm _ ratio, abs_sub_comm _ ratio, abs_of_pos (sub_pos.mpr below)]
  exact multiple.trans_lt (sub_lt_sub_left (magnitude_lt_of_finer finer) ratio)

/-- No number is closer than the rounded one, and another one that is as close is odd. -/
theorem closest (z : Binary64) :
    |(rounded : ℚ) * 2 ^ lastPlace ratio - ratio| ≤ |z.magnitude - ratio| ∧
      (z.magnitude ≠ rounded * 2 ^ lastPlace ratio →
        |z.magnitude - ratio| = |(rounded : ℚ) * 2 ^ lastPlace ratio - ratio| →
          rounded % 2 = 0 ∧ z.significand % 2 = 1) := by
  by_cases finer : z.exponent < lastPlace ratio
  · have further := rounds.lt_of_finer positive finer
    exact ⟨further.le, fun _ tie => absurd tie further.ne'⟩
  · obtain ⟨places, size, parity⟩ := exists_places (not_lt.mp finer)
    have power := twoPower_pos (lastPlace ratio)
    by_cases same : places = rounded
    · rw [size, same]
      exact ⟨le_rfl, fun differs => absurd rfl differs⟩
    · rw [size, distance_places, distance_places]
      refine ⟨mul_le_mul_of_nonneg_right
        (rounds.near.trans (half_le_distance rounds.near same)) power.le, ?_⟩
      intro _ tie
      obtain ⟨half, parities⟩ :=
        parity_of_tie rounds.near same (mul_right_cancel₀ power.ne' tie)
      have even := rounds.even half
      omega

end RoundsTo

/-- The number that is made of a place above the smallest one and of a whole number of places. -/
theorem ofMagnitude_places (isNegative : Bool) {steps rounded : Nat}
    (isNormal : 0 < steps → 2 ^ 52 ≤ rounded) (carried : rounded ≤ 2 ^ 53) (fits : steps ≤ 2045) :
    (ofMagnitude isNegative (steps * 2 ^ 52 + rounded)).isNaN = false ∧
      (ofMagnitude isNegative (steps * 2 ^ 52 + rounded)).magnitude =
        rounded * 2 ^ ((steps : Int) - 1074) ∧
      (rounded % 2 = 0 →
        (ofMagnitude isNegative (steps * 2 ^ 52 + rounded)).significand % 2 = 0) := by
  have fitsBits : steps * 2 ^ 52 + rounded < 2 ^ 63 := by omega
  have field : (ofMagnitude isNegative (steps * 2 ^ 52 + rounded)).exponentField =
      (steps * 2 ^ 52 + rounded) / 2 ^ 52 := exponentField_ofMagnitude fitsBits
  have part : (ofMagnitude isNegative (steps * 2 ^ 52 + rounded)).fraction =
      (steps * 2 ^ 52 + rounded) % 2 ^ 52 := fraction_ofMagnitude fitsBits
  set y := ofMagnitude isNegative (steps * 2 ^ 52 + rounded)
  have isNumber : y.isNaN = false := by
    simp only [isNaN, decide_eq_false_iff_not]
    omega
  -- A carry out of the places is a single place of the next power of two.
  by_cases carry : rounded = 2 ^ 53
  · have significandEq : y.significand = 2 ^ 52 := by
      rw [significand, if_neg (by omega)]
      omega
    have exponentEq : y.exponent = 1 + ((steps : Int) - 1074) := by
      rw [exponent]
      omega
    refine ⟨isNumber, ?_, fun _ => by rw [significandEq]⟩
    rw [magnitude, significandEq, exponentEq, zpow_add₀ (by norm_num), ← mul_assoc, carry]
    norm_num
  · have significandEq : y.significand = rounded := by
      rw [significand]
      split <;> omega
    have exponentEq : y.exponent = (steps : Int) - 1074 := by
      rw [exponent]
      omega
    rw [magnitude, significandEq, exponentEq]
    exact ⟨isNumber, rfl, id⟩

section Nearest

variable (isNegative : Bool) {numerator denominator : Nat}

/-- The rounded quotient is put in its place, unless the place is above all finite numbers. -/
theorem nearest_places (numeratorPositive : 0 < numerator) (denominatorPositive : 0 < denominator) :
    ∃ rounded, RoundsTo ((numerator : ℚ) / denominator) rounded ∧
      nearest isNegative numerator denominator =
        if lastPlace ((numerator : ℚ) / denominator) ≤ 971 then
          ofMagnitude isNegative
            ((lastPlace ((numerator : ℚ) / denominator) + 1074).toNat * 2 ^ 52 + rounded)
        else infinity isNegative := by
  set ratio : ℚ := (numerator : ℚ) / denominator with ratioEq
  have positive : 0 < ratio := by positivity
  obtain ⟨near, even⟩ := roundQuotient_near (numerator * 2 ^ (-lastPlace ratio).toNat)
    (denominator * 2 ^ (lastPlace ratio).toNat) (by positivity)
  rw [scaled_quotient] at near even
  set rounded := roundQuotient (numerator * 2 ^ (-lastPlace ratio).toNat)
    (denominator * 2 ^ (lastPlace ratio).toNat) with roundedEq
  have rounds : RoundsTo ratio rounded := ⟨near, even⟩
  refine ⟨rounded, rounds, ?_⟩
  have high := rounds.le
  have low := rounds.ge positive
  have smallest : -1074 ≤ lastPlace ratio := le_max_right _ _
  rw [nearest, if_neg numeratorPositive.ne', floorLog2_eq_log numeratorPositive denominatorPositive,
    ← ratioEq, ← lastPlace]
  dsimp only
  rw [← roundedEq]
  split
  · rw [if_pos (by omega)]
  · split
    · have top : (lastPlace ratio + 1074).toNat * 2 ^ 52 + rounded = 2047 * 2 ^ 52 := by omega
      rw [infinity, top]
    · rfl

theorem negative_nearest : (nearest isNegative numerator denominator).negative = isNegative := by
  rw [nearest]
  split
  · exact negative_ofMagnitude (by decide)
  · dsimp only
    split
    · rename_i inRange
      exact negative_ofMagnitude (inRange.trans (by decide))
    · exact negative_ofMagnitude (by decide)

theorem isNearestSize_zero : (zero isNegative).IsNearestSize 0 := by
  have size : (zero isNegative).magnitude = 0 :=
    magnitude_of_isZero (by cases isNegative <;> decide)
  refine ⟨by cases isNegative <;> decide, ?_, ?_⟩
  · intro z _
    rw [size, sub_zero, abs_zero]
    exact abs_nonneg _
  · intro z _ differs tie
    rw [size, sub_zero, sub_zero, abs_zero, abs_eq_zero] at tie
    exact absurd (tie.trans size.symm) differs

theorem isNearestSize_infinity {ratio : ℚ} (large : (2 : ℚ) ^ (1024 : Int) ≤ ratio) :
    (infinity isNegative).IsNearestSize ratio := by
  have size : (infinity isNegative).magnitude = 2 ^ (1024 : Int) :=
    magnitude_of_isInfinite (by cases isNegative <;> decide)
  have isNumber : (infinity isNegative).isNaN = false := by cases isNegative <;> decide
  have distance : ∀ z : Binary64, z.isNaN = false →
      |z.magnitude - ratio| = ratio - z.magnitude := by
    intro z zNumber
    rw [abs_sub_comm]
    exact abs_of_nonneg (sub_nonneg.mpr ((magnitude_le zNumber).trans large))
  refine ⟨isNumber, ?_, ?_⟩
  · intro z zNumber
    rw [distance _ isNumber, distance z zNumber, size]
    exact sub_le_sub_left (magnitude_le zNumber) ratio
  · intro z zNumber differs tie
    rw [distance _ isNumber, distance z zNumber] at tie
    exact absurd (sub_right_inj.mp tie) differs

theorem isNearestSize_nearest (numerator : Nat) (denominatorPositive : 0 < denominator) :
    (nearest isNegative numerator denominator).IsNearestSize ((numerator : ℚ) / denominator) := by
  rcases Nat.eq_zero_or_pos numerator with none | numeratorPositive
  · rw [none, nearest, if_pos rfl, Nat.cast_zero, zero_div]
    exact isNearestSize_zero isNegative
  · have positive : (0 : ℚ) < (numerator : ℚ) / denominator := by positivity
    obtain ⟨rounded, rounds, found⟩ :=
      nearest_places isNegative numeratorPositive denominatorPositive
    rw [found]
    set ratio : ℚ := (numerator : ℚ) / denominator
    split
    · rename_i inRange
      have smallest : -1074 ≤ lastPlace ratio := le_max_right _ _
      obtain ⟨isNumber, size, even⟩ := ofMagnitude_places isNegative
        (fun above : 0 < (lastPlace ratio + 1074).toNat => rounds.ge positive (by omega)) rounds.le
        (by omega)
      rw [Int.toNat_of_nonneg (by omega), add_sub_cancel_right] at size
      refine ⟨isNumber, ?_, ?_⟩
      · intro z _
        rw [size]
        exact (rounds.closest positive z).1
      · intro z _ differs tie
        rw [size] at differs tie
        obtain ⟨roundedEven, otherOdd⟩ := (rounds.closest positive z).2 differs tie
        exact ⟨even roundedEven, otherOdd⟩
    · rename_i above
      apply isNearestSize_infinity
      exact (zpow_le_zpow_right₀ (by norm_num) (by omega)).trans
        (lastPlace_le_ratio positive (by omega))

end Nearest

namespace IsNearestSize

variable {size ratio : ℚ} {y : Binary64} (isNearest : y.IsNearestSize size)

include isNearest

theorem magnitude_zero (none : size = 0) : y.magnitude = 0 := by
  have noSize : (zero false).magnitude = 0 := magnitude_of_isZero (by decide)
  have closest := isNearest.closest (zero false) (by decide)
  rw [noSize, none, sub_zero, sub_zero, abs_zero] at closest
  exact abs_eq_zero.mp (le_antisymm closest (abs_nonneg _))

/-- Numbers of opposite signs are as far from a rational only where they are zeros. -/
theorem value_eq {isNegative : Bool} (sign : y.negative = isNegative)
    (sizeEq : |signFactor isNegative * size| = size) {z : Binary64}
    (sameSize : z.magnitude = y.magnitude)
    (tie : |z.value - signFactor isNegative * size| = |y.value - signFactor isNegative * size|) :
    z.value = y.value := by
  by_cases sameSign : z.negative = isNegative
  · rw [value, value, sameSign, sign, sameSize]
  · have opposite : z.value = -y.value := by
      have factor : signFactor z.negative = -signFactor isNegative := by
        revert sameSign
        cases z.negative <;> cases isNegative <;> simp [signFactor]
      rw [value, value, factor, sign, sameSize, neg_mul]
    have none : y.value = 0 := by
      rw [opposite] at tie
      rcases abs_eq_abs.mp tie with same | mirrored
      · linarith
      · have centred : signFactor isNegative * size = 0 := by linarith
        rw [centred, abs_zero] at sizeEq
        rw [value, isNearest.magnitude_zero sizeEq.symm, mul_zero]
    rw [opposite, none, neg_zero]

/-- With the sign of the rational the nearest size is the nearest number. -/
theorem withSign {isNegative : Bool} (sign : y.negative = isNegative) (nonneg : 0 ≤ size) :
    y.IsNearest (signFactor isNegative * size) := by
  have sizeEq : |signFactor isNegative * size| = size := by
    rw [abs_mul, abs_signFactor, one_mul, abs_of_nonneg nonneg]
  have distance := value_of_sign sign size
  refine ⟨isNearest.isNumber, ?_, ?_⟩
  · intro z isNumber
    rw [distance]
    exact (isNearest.closest z isNumber).trans (z.abs_magnitude_sub_le sizeEq)
  · intro z isNumber differs tie
    have below := z.abs_magnitude_sub_le sizeEq
    rw [tie, distance] at below
    have same := le_antisymm below (isNearest.closest z isNumber)
    by_cases sameSize : z.magnitude = y.magnitude
    · exact absurd (isNearest.value_eq sign sizeEq sameSize tie) differs
    · exact (isNearest.parity z isNumber sameSize same).1

/-- A number that is nearest to a rational has the nearest size. -/
theorem magnitude_eq {z : Binary64} (other : z.IsNearest ratio) (sizeEq : |ratio| = size) :
    z.magnitude = y.magnitude := by
  by_contra differs
  obtain ⟨closer, even⟩ := other.sizes sizeEq isNearest.isNumber
  have tie := le_antisymm closer (isNearest.closest z other.isNumber)
  have isEven := even (Ne.symm differs) tie.symm
  have isOdd := (isNearest.parity z other.isNumber differs tie).2
  omega

end IsNearestSize

/-- The way of rounding finds the nearest number. -/
theorem isNearest_nearest (isNegative : Bool) (numerator denominator : Nat)
    (positive : 0 < denominator) : (nearest isNegative numerator denominator).IsNearest
      (signFactor isNegative * ((numerator : ℚ) / denominator)) :=
  (isNearestSize_nearest isNegative numerator positive).withSign (negative_nearest isNegative)
    (by positivity)

/-- There is one nearest number, up to the sign of a zero. -/
theorem IsNearest.unique {ratio : ℚ} {y z : Binary64} (yNearest : y.IsNearest ratio)
    (zNearest : z.IsNearest ratio) (sign : y.negative = z.negative) : y = z := by
  have size : |ratio| = (ratio.num.natAbs : ℚ) / ratio.den := by
    conv_lhs => rw [← Rat.num_div_den ratio]
    rw [abs_div, Nat.abs_cast, Nat.cast_natAbs, Int.cast_abs]
  have found := isNearestSize_nearest false ratio.num.natAbs ratio.den_pos
  apply eq_of_magnitude sign
  rw [found.magnitude_eq yNearest size, found.magnitude_eq zNearest size]

end CompiledCode.Binary64
