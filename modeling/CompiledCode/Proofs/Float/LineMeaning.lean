import CompiledCode.Proofs.Float.LineRoundTrip

/-!
The line of a number says what the number is: its places are the mantissa and not a decimal close
to it, and the mantissa times the power of two is the number, with no error in either.
-/

namespace CompiledCode.Binary64

/-- The factor of a sign. -/
def signFactor (isNegative : Bool) : ℚ := if isNegative then -1 else 1

/-- The rational number that a finite number is. -/
def value (x : Binary64) : ℚ := signFactor x.negative * x.magnitude

theorem abs_signFactor (isNegative : Bool) : |signFactor isNegative| = 1 := by
  cases isNegative <;> simp [signFactor]

theorem magnitude_nonneg (x : Binary64) : 0 ≤ x.magnitude :=
  mul_nonneg (Nat.cast_nonneg _) (twoPower_pos _).le

/-- The sign does not count for the size. -/
theorem abs_value (x : Binary64) : |x.value| = x.magnitude := by
  rw [value, abs_mul, abs_signFactor, one_mul, abs_of_nonneg x.magnitude_nonneg]

/-- The rational number that decimal places behind a point name. -/
def placesValue (isNegative : Bool) (places : List Char) : ℚ :=
  signFactor isNegative * (Text.digitsValue places / 10 ^ places.length)

/--
A line names a finite number: the places are those of its mantissa, whose size is at least one half
and below one, and the mantissa times the power of two is the number.
-/
structure Names (x : Binary64) (places : List Char) (power : Int) : Prop where
  line_eq : x.line = String.ofList (' ' :: (signChar x.negative :: '0' :: '.' :: places ++ ' ' ::
    (List.replicate (5 - (toString power).length) ' ' ++ (toString power).toList))) ++ "\n"
  count : places.length = 54
  digits : ∀ c ∈ places, c.isDigit = true
  split_eq : x.split.2 = power ∧ x.split.1.value = placesValue x.negative places
  atLeastHalf : 1 / 2 ≤ |placesValue x.negative places|
  belowOne : |placesValue x.negative places| < 1
  value_eq : placesValue x.negative places * 2 ^ power = x.value

/-- A mantissa is at least one half and below one. -/
theorem magnitude_mantissa (isNegative : Bool) {part : Nat} (isFraction : part < 2 ^ 52) :
    1 / 2 ≤ (normal isNegative 1022 part).magnitude ∧
      (normal isNegative 1022 part).magnitude < 1 := by
  have low : ((2 ^ 52 : Nat) : ℚ) ≤ (2 ^ 52 + part : Nat) := by
    exact_mod_cast Nat.le_add_right _ _
  have high : ((2 ^ 52 + part : Nat) : ℚ) < (2 ^ 53 : Nat) := by
    exact_mod_cast (by omega : 2 ^ 52 + part < 2 ^ 53)
  have half : (1 / 2 : ℚ) = (2 ^ 52 : Nat) * 2 ^ (-53 : Int) := by norm_num
  have one : (1 : ℚ) = (2 ^ 53 : Nat) * 2 ^ (-53 : Int) := by norm_num
  rw [magnitude_normal (by decide) (by decide) isFraction]
  change 1 / 2 ≤ (2 ^ 52 + part : Nat) * (2 : ℚ) ^ (-53 : Int) ∧
    (2 ^ 52 + part : Nat) * (2 : ℚ) ^ (-53 : Int) < 1
  constructor
  · rw [half]
    exact mul_le_mul_of_nonneg_right low (twoPower_pos _).le
  · rw [one]
    exact mul_lt_mul_of_pos_right high (twoPower_pos _)

/-- The places of a mantissa are its decimal expansion, to the end. -/
theorem placesValue_mantissa {mantissa : Binary64} (isMantissa : mantissa.IsMantissa) :
    placesValue mantissa.negative (placeDigits mantissa.placeCount) = mantissa.value := by
  rw [placesValue, digitsValue_placeDigits, length_placeDigits isMantissa.placeCount_lt,
    isMantissa.placeCount_div, value]

/-- The line of a finite number whose mantissa and power of two are known. -/
theorem line_eq_of_split {x mantissa : Binary64} {power : Int} (finite : x.isFinite = true)
    (parts : x.split = (mantissa, power)) : x.line = String.ofList (' ' ::
      (signChar mantissa.negative :: '0' :: '.' :: placeDigits mantissa.placeCount ++ ' ' ::
        (List.replicate (5 - (toString power).length) ' ' ++ (toString power).toList))) ++
      "\n" := by
  have notTop : x.exponentField ≠ 2047 := by simpa [isFinite] using finite
  have isNumber : ¬ x.isNaN = true := by simp [isNaN, notTop]
  have notInfinite : ¬ x.isInfinite = true := by simp [isInfinite, notTop]
  rw [line_finite isNumber notInfinite, finiteText, parts, ← toList_mantissaText, lineExponentWidth]

/-- The line of a finite number other than zero names the number. -/
theorem line_names {x : Binary64} (finite : x.isFinite = true) (filled : x.isZero = false) :
    ∃ places power, x.Names places power := by
  obtain ⟨part, power, isFraction, _, _, parts, product⟩ := split_eq finite filled
  have isMantissa := isMantissa_normal x.negative isFraction
  have sign : (normal x.negative 1022 part).negative = x.negative :=
    negative_normal (by decide) isFraction
  have places := placesValue_mantissa isMantissa
  rw [sign] at places
  obtain ⟨atLeastHalf, belowOne⟩ := magnitude_mantissa x.negative isFraction
  refine ⟨placeDigits (normal x.negative 1022 part).placeCount, power, ?_,
    length_placeDigits isMantissa.placeCount_lt, fun _ => isDigit_of_mem_placeDigits,
    ⟨by rw [parts], by rw [parts, places]⟩, ?_, ?_, ?_⟩
  · rw [line_eq_of_split finite parts, sign]
  · rwa [places, abs_value]
  · rwa [places, abs_value]
  · rw [places, value, sign, mul_assoc, product, value]

theorem isNaN_canonical (x : Binary64) : x.canonical.isNaN = x.isNaN := by
  rw [canonical]
  split
  · rename_i notNumber
    rw [notNumber]
    decide
  · rfl

/--
The line of a number ends with its only line feed and reads back as the number, bit for bit, where a
NaN reads back as a NaN. The line of a finite number other than zero names the number exactly.
-/
theorem line_round_trip (x : Binary64) :
    (∃ text y, Text.Utf8.encode x.line = text ++ [10] ∧ 10 ∉ text ∧ ofLine text = .ok y ∧
      (x.isNaN = false → y.bits = x.bits) ∧ (x.isNaN = true → y.isNaN = true)) ∧
    (x.isFinite = true → x.isZero = false → ∃ places power, x.Names places power) := by
  refine ⟨?_, line_names⟩
  obtain ⟨text, noFeed, encoded, reads⟩ := encode_line x
  refine ⟨text, x.canonical, encoded, fun member => noFeed 10 member rfl, reads, ?_, ?_⟩
  · intro isNumber
    rw [canonical, isNumber]
    rfl
  · rw [isNaN_canonical]
    exact id

/-- The smallest number above zero and a NaN with a sign and a payload. -/
theorem line_round_trip_extremes :
    let tiny : Binary64 := ⟨1⟩
    let payload : Binary64 := ⟨0xFFF0000000000001⟩
    (tiny.isFinite = true ∧ tiny.isZero = false ∧ ∃ places, tiny.Names places (-1073)) ∧
    (tiny.isNaN = false ∧ ∃ text y, Text.Utf8.encode tiny.line = text ++ [10] ∧
      ofLine text = .ok y ∧ y.bits = 1) ∧
    (payload.isNaN = true ∧ ∃ text y, Text.Utf8.encode payload.line = text ++ [10] ∧
      ofLine text = .ok y ∧ y.isNaN = true) := by
  intro tiny payload
  have isFinite : tiny.isFinite = true := by decide
  have filled : tiny.isZero = false := by decide
  have isNumber : tiny.isNaN = false := by decide
  have notNumber : payload.isNaN = true := by decide
  refine ⟨⟨isFinite, filled, ?_⟩, ⟨isNumber, ?_⟩, notNumber, ?_⟩
  · obtain ⟨places, power, names⟩ := (line_round_trip tiny).2 isFinite filled
    have powerEq : tiny.split.2 = -1073 := by decide +kernel
    rw [names.split_eq.1] at powerEq
    exact ⟨places, powerEq ▸ names⟩
  · obtain ⟨text, y, encoded, _, reads, same, _⟩ := (line_round_trip tiny).1
    exact ⟨text, y, encoded, reads, same isNumber⟩
  · obtain ⟨text, y, encoded, _, reads, _, stays⟩ := (line_round_trip payload).1
    exact ⟨text, y, encoded, reads, stays notNumber⟩

end CompiledCode.Binary64
