import CompiledCode.Float.Line
import CompiledCode.Proofs.Float.Splitting
import CompiledCode.Proofs.Text.NumberRoundTrip
import CompiledCode.Proofs.Text.Utf8RoundTrip
import Mathlib.Data.List.TakeWhile

/-!
The line of a number reads back as the number: 54 places hold a mantissa of 53 bits exactly, and
what reads them rounds nothing.
-/

namespace CompiledCode

/-- So many places, with zeros in front. -/
def placeDigits (count : Nat) : List Char :=
  List.replicate (54 - (Nat.toDigits 10 count).length) '0' ++ Nat.toDigits 10 count

theorem isDigit_of_mem_placeDigits {count : Nat} {c : Char} (member : c ∈ placeDigits count) :
    c.isDigit := Text.isDigit_of_mem_paddedDigits member

theorem length_placeDigits {count : Nat} (fits : count < 10 ^ 54) :
    (placeDigits count).length = 54 := by
  have short := (Nat.length_toDigits_le_iff (b := 10) (by decide) (by decide)).mpr fits
  rw [placeDigits, List.length_append, List.length_replicate]
  omega

theorem digitsValue_placeDigits (count : Nat) : Text.digitsValue (placeDigits count) = count :=
  Text.digitsValue_paddedDigits 54 count

/-- A leading zero, a point and the places are the count of the last place. -/
theorem Decimal.parse?_placeDigits {count : Nat} (fits : count < 10 ^ 54) :
    Decimal.parse? ('0' :: '.' :: placeDigits count) = some ⟨count, -54⟩ := by
  have allDigits : (placeDigits count).takeWhile Char.isDigit = placeDigits count :=
    List.takeWhile_eq_self_iff.mpr fun c member => isDigit_of_mem_placeDigits member
  have whole : ('0' :: '.' :: placeDigits count).takeWhile Char.isDigit = ['0'] := rfl
  have value : Text.digitsValue ('0' :: placeDigits count) = count :=
    (Text.digitsValue_zeros 1 (placeDigits count)).trans (digitsValue_placeDigits count)
  have dropped : (placeDigits count).drop 54 = [] :=
    List.drop_eq_nil_of_le (length_placeDigits fits).le
  rw [Decimal.parse?, whole]
  simp only [List.length_singleton, List.drop_succ_cons, List.drop_zero, allDigits,
    List.singleton_append, value, length_placeDigits fits, dropped]
  rfl

/-- A number of places below one is in the range, and so its quotient is rounded. -/
theorem Decimal.toBinary64_places (isNegative : Bool) (count : Nat) :
    Decimal.toBinary64 isNegative ⟨count, -54⟩ = .nearest isNegative count (10 ^ 54) := by
  rw [Decimal.toBinary64]
  dsimp only
  by_cases zero : count = 0
  · rw [if_pos (.inl zero), zero, Binary64.nearest, if_pos rfl]
  · rw [if_neg (by rintro (same | ⟨_, tooSmall⟩) <;> omega),
      if_neg (by rintro ⟨notNegative, _⟩; omega)]
    change Binary64.nearest isNegative (count * 10 ^ 0) (10 ^ 54) = _
    rw [Nat.pow_zero, Nat.mul_one]

namespace Binary64

/-- The sign of a number in front of its digits. -/
def signChar (isNegative : Bool) : Char := if isNegative then '-' else '+'

/-- So many times the last place the size of a mantissa is. -/
def placeCount (mantissa : Binary64) : Nat :=
  mantissa.significand * 10 ^ 54 / 2 ^ (-mantissa.exponent).toNat

theorem toList_mantissaText (mantissa : Binary64) :
    mantissa.mantissaText.toList =
      signChar mantissa.negative :: '0' :: '.' :: placeDigits mantissa.placeCount := by
  have places : (decimalPlaces linePlaces mantissa.significand
      (2 ^ (-mantissa.exponent).toNat)).toList = placeDigits mantissa.placeCount :=
    Text.toList_padStart_toString 54 mantissa.placeCount
  rw [mantissaText, String.toList_append, String.toList_append, places, signChar]
  cases mantissa.negative <;> rfl

/-- A finite number below one that the places hold exactly. -/
structure IsMantissa (x : Binary64) : Prop where
  finite : x.isFinite = true
  noWhole : x.exponent ≤ 0
  belowOne : x.significand < 2 ^ (-x.exponent).toNat
  exactPlaces : 2 ^ (-x.exponent).toNat ∣ x.significand * 10 ^ 54

namespace IsMantissa

variable {mantissa : Binary64} (isMantissa : mantissa.IsMantissa)

include isMantissa

theorem placeCount_lt : mantissa.placeCount < 10 ^ 54 := by
  rw [placeCount, Nat.div_lt_iff_lt_mul (by positivity), Nat.mul_comm (10 ^ 54)]
  exact Nat.mul_lt_mul_of_pos_right isMantissa.belowOne (by positivity)

/-- Nothing is cut off behind the last place. -/
theorem placeCount_div : (mantissa.placeCount : ℚ) / 10 ^ 54 = mantissa.magnitude := by
  have cast : (mantissa.placeCount : ℚ) * 2 ^ (-mantissa.exponent).toNat =
      mantissa.significand * 10 ^ 54 := by
    exact_mod_cast Nat.div_mul_cancel isMantissa.exactPlaces
  rw [magnitude, twoPower_eq, Int.toNat_of_nonpos isMantissa.noWhole, pow_zero, mul_one_div,
    div_eq_div_iff (by positivity) (by positivity), cast]

end IsMantissa

theorem isMantissa_normal (isNegative : Bool) {part : Nat} (isFraction : part < 2 ^ 52) :
    (normal isNegative 1022 part).IsMantissa := by
  have exponentEq : (normal isNegative 1022 part).exponent = -53 :=
    exponent_normal (by decide) (by decide) isFraction
  have significandEq : (normal isNegative 1022 part).significand = 2 ^ 52 + part :=
    significand_normal (by decide) (by decide) isFraction
  refine ⟨isFinite_normal (by decide) isFraction, ?_, ?_, ?_⟩
  · rw [exponentEq]
    decide
  · rw [exponentEq, significandEq]
    change 2 ^ 52 + part < 2 ^ 53
    omega
  · rw [exponentEq]
    exact Dvd.dvd.mul_left (by decide) _

theorem isMantissa_zero {x : Binary64} (zero : x.isZero = true) : x.IsMantissa := by
  have parts : x.exponentField = 0 ∧ x.fraction = 0 := by simpa [isZero] using zero
  have significandEq : x.significand = 0 := isZero_iff.mp zero
  have exponentEq : x.exponent = -1074 := by
    rw [exponent, parts.1]
    rfl
  refine ⟨isFinite_iff.mpr (by omega), ?_, ?_, ?_⟩
  · rw [exponentEq]
    decide
  · rw [significandEq]
    positivity
  · rw [significandEq, Nat.zero_mul]
    exact Nat.dvd_zero _

/-- A text of digits is no name of an infinity or of NaN. -/
theorem ofUnsignedLiteral?_digits (isNegative : Bool) (text : List Char) :
    ofUnsignedLiteral? isNegative ('0' :: text) =
      (Decimal.parse? ('0' :: text)).map (·.toBinary64 isNegative) := by
  have first : (Text.lowerAscii (String.ofList ('0' :: text))).toList =
      '0' :: text.map Char.toLower := by
    rw [Text.lowerAscii, String.toList_ofList, String.toList_ofList, List.map_cons]
    rfl
  rw [ofUnsignedLiteral?]
  split
  all_goals
    first
    | rfl
    | rename_i name
      rw [name] at first
      exact absurd (List.cons.inj first).1 (by decide)

theorem ofLiteral?_signed (isNegative : Bool) (text : List Char) :
    ofLiteral? (signChar isNegative :: '0' :: text) =
      ofUnsignedLiteral? isNegative ('0' :: text) := by
  cases isNegative <;> rfl

/-- A mantissa reads back. -/
theorem ofLiteral?_mantissaText {mantissa : Binary64} (isMantissa : mantissa.IsMantissa) :
    ofLiteral? mantissa.mantissaText.toList = some mantissa := by
  have value : (mantissa.placeCount : ℚ) / (10 ^ 54 : Nat) = mantissa.magnitude := by
    exact_mod_cast isMantissa.placeCount_div
  rw [toList_mantissaText, ofLiteral?_signed, ofUnsignedLiteral?_digits,
    Decimal.parse?_placeDigits isMantissa.placeCount_lt, Option.map_some,
    Decimal.toBinary64_places, nearest_magnitude isMantissa.finite (by positivity) value]

/-- A number, where the one NaN stands for all of them. -/
def canonical (x : Binary64) : Binary64 := if x.isNaN then nan else x

/-- ASCII characters other than the line feed. -/
def IsPlain (text : List Char) : Prop := ∀ c ∈ text, c.toNat < 128 ∧ c ≠ '\n'

theorem isPlain_of_isDigit {c : Char} (digit : c.isDigit) : c.toNat < 128 ∧ c ≠ '\n' := by
  have high : c.toNat ≤ 57 := (Char.isDigit_iff_toNat.mp digit).2
  refine ⟨by omega, ?_⟩
  rintro rfl
  exact absurd digit (by decide)

/-- Every character of a mantissa is a digit, a point or a sign. -/
theorem mem_mantissaText {mantissa : Binary64} {c : Char}
    (member : c ∈ mantissa.mantissaText.toList) :
    c.isDigit ∨ c = '.' ∨ c = '-' ∨ c = '+' := by
  rw [toList_mantissaText, List.mem_cons, List.mem_cons, List.mem_cons, signChar] at member
  rcases member with sign | zero | point | digit
  · right; right
    rw [sign]
    split <;> simp
  · left
    rw [zero]
    decide
  · exact .inr (.inl point)
  · exact .inl (isDigit_of_mem_placeDigits digit)

/-- Every character of an integer is a digit or a minus sign. -/
theorem mem_toString {value : Int} {c : Char} (member : c ∈ (toString value).toList) :
    c.isDigit ∨ c = '-' := by
  rw [Text.toList_toString] at member
  split at member
  · exact .inl (Text.isDigit_of_mem member)
  · rcases List.mem_cons.mp member with sign | digit
    · exact .inr sign
    · exact .inl (Text.isDigit_of_mem digit)

theorem lineExponent?_toString {power : Int} (low : -1073 ≤ power) (high : power ≤ 1024) :
    lineExponent? (toString power).toList = some power := by
  rw [lineExponent?, Text.integer?_toString, Option.filter_some, if_pos]
  simp only [decide_eq_true_eq]
  omega

/-- A mantissa and a power of two give their product. -/
theorem ofPair?_mantissaText {mantissa : Binary64} {power : Int} (blanks : Nat)
    (isMantissa : mantissa.IsMantissa) (low : -1073 ≤ power) (high : power ≤ 1024) :
    ofPair? (mantissa.mantissaText.toList ++
      ' ' :: (List.replicate blanks ' ' ++ (toString power).toList)) =
      some (mantissa.scale power) := by
  have mantissaFilled : mantissa.mantissaText.toList ≠ [] := by
    rw [toList_mantissaText]
    simp
  have mantissaInside : ∀ c ∈ mantissa.mantissaText.toList, Text.isBlank c = false := by
    intro c member
    rcases mem_mantissaText member with digit | rfl | rfl | rfl
    · exact Text.not_isBlank_of_isDigit digit
    all_goals decide
  have powerFilled : (toString power).toList ≠ [] := by
    rw [Text.toList_toString]
    split
    · exact Nat.toDigits_ne_nil
    · simp
  have powerInside : ∀ c ∈ (toString power).toList, Text.isBlank c = false := by
    intro c member
    rcases mem_toString member with digit | rfl
    · exact Text.not_isBlank_of_isDigit digit
    · decide
  rw [ofPair?, Text.words_append mantissaFilled mantissaInside (by decide), Text.words_blanks,
    Text.words_single powerFilled powerInside]
  dsimp only
  rw [ofLiteral?_mantissaText isMantissa, lineExponent?_toString low high]
  rfl

/-- A finite number is the product of a mantissa and a power of two. -/
theorem split_reads {x : Binary64} (finite : x.isFinite = true) :
    x.split.1.IsMantissa ∧ -1073 ≤ x.split.2 ∧ x.split.2 ≤ 1024 ∧
      x.split.1.scale x.split.2 = x := by
  by_cases zero : x.isZero = true
  · have whole : x.split = (x, 0) := by rw [split, zero]; rfl
    have same : x.scale 0 = x := by
      rw [scale, scalingSteps]
      exact timesPowerOfTwo_eq finite finite rfl (by rw [zpow_zero, mul_one])
    rw [whole]
    exact ⟨isMantissa_zero zero, show (-1073 : Int) ≤ 0 by decide,
      show (0 : Int) ≤ 1024 by decide, same⟩
  · obtain ⟨part, power, isFraction, low, high, parts, value⟩ :=
      split_eq finite (by simpa using zero)
    rw [parts]
    exact ⟨isMantissa_normal _ isFraction, low, high,
      scale_normal finite isFraction low high value⟩

theorem eq_infinity {x : Binary64} (infinite : x.isInfinite = true) :
    infinity x.negative = x := by
  have parts : x.exponentField = 2047 ∧ x.fraction = 0 := by simpa [isInfinite] using infinite
  have rebuilt := ofMagnitude_fields x
  rw [parts.1, parts.2] at rebuilt
  exact rebuilt

theorem isFinite_of_not {x : Binary64} (isNumber : ¬ x.isNaN = true)
    (notInfinite : ¬ x.isInfinite = true) : x.isFinite = true := by
  by_contra notFinite
  have top : x.exponentField = 2047 := by simpa [isFinite] using notFinite
  by_cases none : x.fraction = 0
  · exact notInfinite (by simp [isInfinite, top, none])
  · exact isNumber (by simp [isNaN, top, none])

/-- The text of a finite number: its mantissa and its power of two, with blanks in front of both. -/
def finiteText (x : Binary64) : List Char :=
  ' ' :: (x.split.1.mantissaText.toList ++ ' ' ::
    (List.replicate (lineExponentWidth - (toString x.split.2).length) ' ' ++
      (toString x.split.2).toList))

theorem isPlain_finiteText (x : Binary64) : IsPlain x.finiteText := by
  have blank : (' ' : Char).toNat < 128 ∧ ' ' ≠ '\n' := by decide
  intro c member
  simp only [finiteText, List.mem_cons, List.mem_append, List.mem_replicate] at member
  rcases member with rfl | inMantissa | rfl | ⟨_, rfl⟩ | inPower
  · exact blank
  · rcases mem_mantissaText inMantissa with digit | rfl | rfl | rfl
    · exact isPlain_of_isDigit digit
    all_goals decide
  · exact blank
  · exact blank
  · rcases mem_toString inPower with digit | rfl
    · exact isPlain_of_isDigit digit
    · decide

theorem line_finite {x : Binary64} (isNumber : ¬ x.isNaN = true)
    (notInfinite : ¬ x.isInfinite = true) : x.line = String.ofList x.finiteText ++ "\n" := by
  rw [line, if_neg isNumber, if_neg notInfinite]
  apply String.toList_inj.mp
  simp only [String.toList_append, Text.toList_padStart, String.toList_ofList]
  simp [finiteText]

theorem finiteText_reads {x : Binary64} (finite : x.isFinite = true) :
    ofLineText? (String.ofList x.finiteText) = some x := by
  obtain ⟨isMantissa, low, high, product⟩ := split_reads finite
  rw [ofLineText?, String.toList_ofList]
  exact (ofPair?_mantissaText _ isMantissa low high).trans (congrArg some product)

/-- The line of a number is a plain text and a line feed, and the text names the number. -/
theorem line_reads (x : Binary64) : ∃ text : List Char, IsPlain text ∧
    x.line = String.ofList text ++ "\n" ∧
    ofLineText? (String.ofList text) = some x.canonical := by
  by_cases notNumber : x.isNaN = true
  · refine ⟨['N', 'a', 'N'], by simp [IsPlain], ?_, ?_⟩
    · rw [line, if_pos notNumber]
      rfl
    · rw [canonical, if_pos notNumber]
      rfl
  rw [canonical, if_neg notNumber]
  by_cases infinite : x.isInfinite = true
  · rw [line, if_neg notNumber, if_pos infinite]
    have same := eq_infinity infinite
    cases sign : x.negative with
    | true =>
      rw [sign] at same
      exact ⟨['-', 'I', 'n', 'f', 'i', 'n', 'i', 't', 'y'], by simp [IsPlain], rfl,
        congrArg some same⟩
    | false =>
      rw [sign] at same
      exact ⟨['I', 'n', 'f', 'i', 'n', 'i', 't', 'y'], by simp [IsPlain], rfl,
        congrArg some same⟩
  · exact ⟨x.finiteText, isPlain_finiteText x, line_finite notNumber infinite,
      finiteText_reads (isFinite_of_not notNumber infinite)⟩

/-- The bytes of a plain text hold no line feed. -/
theorem encode_isPlain {text : List Char} (plain : IsPlain text) :
    ∀ letter ∈ Text.Utf8.encode (String.ofList text), letter ≠ 10 := by
  intro letter member
  rw [Text.Utf8.encode, String.toList_ofList] at member
  obtain ⟨c, inText, inBytes⟩ := List.mem_flatMap.mp member
  obtain ⟨ascii, noFeed⟩ := plain c inText
  rw [Text.Utf8.encodeChar_ascii ascii, List.mem_singleton] at inBytes
  rw [inBytes]
  intro same
  apply noFeed
  have code := congrArg UInt8.toNat same
  rw [Text.Utf8.toNat_byte (by omega)] at code
  exact Char.toNat_inj.mp code

/-- The bytes of a line end with its only line feed, and the bytes before it name the number. -/
theorem encode_line (x : Binary64) : ∃ bytes : List UInt8, (∀ letter ∈ bytes, letter ≠ 10) ∧
    Text.Utf8.encode x.line = bytes ++ [10] ∧ ofLine bytes = .ok x.canonical := by
  obtain ⟨text, plain, lineEq, reads⟩ := line_reads x
  refine ⟨Text.Utf8.encode (String.ofList text), encode_isPlain plain, ?_, ?_⟩
  · rw [lineEq, Text.Utf8.encode, String.toList_append, List.flatMap_append, Text.Utf8.encode]
    rfl
  · rw [ofLine, Text.Utf8.decode?_encode, Option.bind_some, reads]

end Binary64

end CompiledCode
