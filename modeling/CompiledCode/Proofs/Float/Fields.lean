import CompiledCode.Float.Binary64

/-!
The sign, the exponent field and the fraction are independent parts of a floating-point number,
and together they are the number.
-/

namespace CompiledCode.Binary64

theorem exponentField_lt (x : Binary64) : x.exponentField < 2048 := by
  rw [exponentField]
  omega

theorem fraction_lt (x : Binary64) : x.fraction < 2 ^ 52 := by
  rw [fraction]
  omega

theorem isFinite_iff {x : Binary64} : x.isFinite = true ↔ x.exponentField ≤ 2046 := by
  have bound := x.exponentField_lt
  simp only [isFinite, decide_eq_true_eq]
  omega

theorem isZero_iff {x : Binary64} : x.isZero = true ↔ x.significand = 0 := by
  simp only [isZero, significand, decide_eq_true_eq]
  split <;> omega

theorem significand_lt (x : Binary64) : x.significand < 2 ^ 53 := by
  have bound := x.fraction_lt
  rw [significand]
  split <;> omega

section Magnitude

variable {isNegative : Bool} {bits : Nat} (fits : bits < 2 ^ 63)

include fits

theorem toNat_ofMagnitude :
    (ofMagnitude isNegative bits).bits.toNat = (if isNegative then 2 ^ 63 else 0) + bits := by
  rw [ofMagnitude, UInt64.toNat_ofNat']
  apply Nat.mod_eq_of_lt
  split <;> omega

theorem negative_ofMagnitude : (ofMagnitude isNegative bits).negative = isNegative := by
  rw [negative, toNat_ofMagnitude fits]
  cases isNegative with
  | true => simp
  | false => simpa using fits

theorem exponentField_ofMagnitude : (ofMagnitude isNegative bits).exponentField = bits / 2 ^ 52 := by
  rw [exponentField, toNat_ofMagnitude fits]
  split <;> omega

theorem fraction_ofMagnitude : (ofMagnitude isNegative bits).fraction = bits % 2 ^ 52 := by
  rw [fraction, toNat_ofMagnitude fits]
  split <;> omega

end Magnitude

theorem ofMagnitude_fields (x : Binary64) :
    ofMagnitude x.negative (x.exponentField * 2 ^ 52 + x.fraction) = x := by
  obtain ⟨bits⟩ := x
  have bound := bits.toNat_lt
  have fits : (Binary64.mk bits).exponentField * 2 ^ 52 + (Binary64.mk bits).fraction < 2 ^ 63 := by
    simp only [exponentField, fraction]
    omega
  have same : (ofMagnitude (Binary64.mk bits).negative
      ((Binary64.mk bits).exponentField * 2 ^ 52 + (Binary64.mk bits).fraction)).bits = bits := by
    apply UInt64.toNat_inj.mp
    rw [toNat_ofMagnitude fits]
    simp only [negative, exponentField, fraction, decide_eq_true_eq]
    split <;> omega
  exact congrArg Binary64.mk same

/-- The number with these parts that is not subnormal. -/
def normal (isNegative : Bool) (field fraction : Nat) : Binary64 :=
  ofMagnitude isNegative (field * 2 ^ 52 + fraction)

section Normal

variable {isNegative : Bool} {field part : Nat} (positive : 1 ≤ field) (isField : field ≤ 2046)
  (isFraction : part < 2 ^ 52)

include isField isFraction

theorem negative_normal : (normal isNegative field part).negative = isNegative :=
  negative_ofMagnitude (by omega)

theorem exponentField_normal : (normal isNegative field part).exponentField = field := by
  rw [normal, exponentField_ofMagnitude (by omega)]
  omega

theorem fraction_normal : (normal isNegative field part).fraction = part := by
  rw [normal, fraction_ofMagnitude (by omega)]
  omega

theorem isFinite_normal : (normal isNegative field part).isFinite = true :=
  isFinite_iff.mpr (by rwa [exponentField_normal isField isFraction])

include positive

theorem significand_normal : (normal isNegative field part).significand = 2 ^ 52 + part := by
  rw [significand, exponentField_normal isField isFraction, fraction_normal isField isFraction,
    if_neg (by omega)]

theorem exponent_normal : (normal isNegative field part).exponent = (field : Int) - 1075 := by
  rw [exponent, exponentField_normal isField isFraction]
  omega

end Normal

end CompiledCode.Binary64
