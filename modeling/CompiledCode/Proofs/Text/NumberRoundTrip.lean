import CompiledCode.Text.Blank
import CompiledCode.Text.Number

/-!
The digits of a number read back as the number, and words that blanks keep apart are found again.
-/

namespace CompiledCode.Text

theorem digitsValue_toDigits (n : Nat) : digitsValue (Nat.toDigits 10 n) = n :=
  Nat.ofDigitChars_ten_toDigits

/-- Zeros in front do not change the value. -/
theorem digitsValue_zeros (count : Nat) (digits : List Char) :
    digitsValue (List.replicate count '0' ++ digits) = digitsValue digits := by
  change Nat.ofDigitChars 10 (List.replicate count '0' ++ digits) 0 = Nat.ofDigitChars 10 digits 0
  rw [Nat.ofDigitChars_append, Nat.ofDigitChars_replicate_zero, Nat.mul_zero]

theorem isDigit_of_mem {n : Nat} {c : Char} (member : c ∈ Nat.toDigits 10 n) : c.isDigit :=
  Nat.isDigit_of_mem_toDigits (by decide) (by decide) member

/-- A number starts with a digit. -/
theorem toDigits_ne_cons {n : Nat} {c : Char} (notDigit : c.isDigit = false) (rest : List Char) :
    Nat.toDigits 10 n ≠ c :: rest := by
  intro same
  have isDigit : c.isDigit := isDigit_of_mem (n := n) (same ▸ List.mem_cons_self)
  rw [notDigit] at isDigit
  cases isDigit

/-- A run of digits names its value. -/
theorem digits?_of_isDigit {text : List Char} (filled : text ≠ [])
    (onlyDigits : ∀ c ∈ text, c.isDigit) : digits? text = some (digitsValue text) := by
  have isFilled : text.isEmpty = false := by simp [filled]
  rw [digits?, isFilled, List.all_eq_true.mpr onlyDigits]
  rfl

theorem digits?_toDigits (n : Nat) : digits? (Nat.toDigits 10 n) = some n := by
  rw [digits?_of_isDigit Nat.toDigits_ne_nil fun _ => isDigit_of_mem, digitsValue_toDigits]

theorem natural?_of_isDigit {text : List Char} (filled : text ≠ [])
    (onlyDigits : ∀ c ∈ text, c.isDigit) : natural? text = some (digitsValue text) := by
  rw [natural?, digits?_of_isDigit filled onlyDigits]
  rintro others rfl
  exact absurd (onlyDigits '+' List.mem_cons_self) (by decide)

theorem natural?_toDigits (n : Nat) : natural? (Nat.toDigits 10 n) = some n := by
  rw [natural?_of_isDigit Nat.toDigits_ne_nil fun _ => isDigit_of_mem, digitsValue_toDigits]

theorem word?_toDigits (value : UInt64) : word? (Nat.toDigits 10 value.toNat) = some value := by
  rw [word?, natural?_toDigits]
  simp [value.toNat_lt]

theorem integer?_toDigits (n : Nat) : integer? (Nat.toDigits 10 n) = some (n : Int) := by
  rw [integer?, natural?_toDigits]
  · rfl
  · exact fun rest => toDigits_ne_cons rfl rest

/-- The text of an integer: a minus sign for a negative one, and the digits of its size. -/
theorem toList_toString (value : Int) :
    (toString value).toList =
      if 0 ≤ value then Nat.toDigits 10 value.toNat else '-' :: Nat.toDigits 10 (-value).toNat := by
  rw [Int.toString_eq_repr, Int.repr_eq_if]
  split
  · exact Nat.toList_repr
  · rw [String.toList_append, Nat.toList_repr]
    rfl

theorem integer?_toString (value : Int) : integer? (toString value).toList = some value := by
  rw [toList_toString]
  split
  · rw [integer?_toDigits]
    congr 1
    omega
  · rw [integer?, digits?_toDigits]
    change some (-((-value).toNat : Int)) = some value
    congr 1
    omega

theorem toList_padStart (filler : Char) (width : Nat) (text : String) :
    (padStart filler width text).toList =
      List.replicate (width - text.length) filler ++ text.toList := by
  rw [padStart, String.toList_append, String.toList_ofList]

/-- The digits of a number, with zeros in front up to the width. -/
def paddedDigits (width n : Nat) : List Char :=
  List.replicate (width - (Nat.toDigits 10 n).length) '0' ++ Nat.toDigits 10 n

theorem toList_padStart_toString (width n : Nat) :
    (padStart '0' width (toString n)).toList = paddedDigits width n := by
  rw [toList_padStart, Nat.toString_eq_repr, Nat.toList_repr, ← String.length_toList,
    Nat.toList_repr, paddedDigits]

theorem isDigit_of_mem_paddedDigits {width n : Nat} {c : Char}
    (member : c ∈ paddedDigits width n) : c.isDigit := by
  rcases List.mem_append.mp member with zero | digit
  · rw [List.eq_of_mem_replicate zero]
    decide
  · exact isDigit_of_mem digit

theorem digitsValue_paddedDigits (width n : Nat) : digitsValue (paddedDigits width n) = n := by
  rw [paddedDigits, digitsValue_zeros, digitsValue_toDigits]

theorem paddedDigits_ne_nil (width n : Nat) : paddedDigits width n ≠ [] := by
  simp [paddedDigits, Nat.toDigits_ne_nil]

theorem natural?_paddedDigits (width n : Nat) : natural? (paddedDigits width n) = some n := by
  rw [natural?_of_isDigit (paddedDigits_ne_nil width n) fun _ => isDigit_of_mem_paddedDigits,
    digitsValue_paddedDigits]

theorem pieces_append {separator : Char → Bool} {token rest : List Char} {c : Char}
    (inside : ∀ d ∈ token, separator d = false) (isSeparator : separator c) :
    pieces separator (token ++ c :: rest) = token :: pieces separator rest := by
  induction token with
  | nil => rw [List.nil_append, pieces, if_pos isSeparator]
  | cons d token inductionHypothesis =>
    have notSeparator : ¬ separator d := by simp [inside d List.mem_cons_self]
    rw [List.cons_append, pieces, if_neg notSeparator,
      inductionHypothesis fun e member => inside e (List.mem_cons_of_mem _ member)]

theorem pieces_ne_nil (separator : Char → Bool) (text : List Char) : pieces separator text ≠ [] := by
  cases text with
  | nil => exact List.cons_ne_nil _ _
  | cons c rest =>
    rw [pieces]
    split
    · exact List.cons_ne_nil _ _
    · split <;> exact List.cons_ne_nil _ _

/-- The pieces of a text are those before a separator and those behind it. -/
theorem pieces_separator {separator : Char → Bool} {c : Char} (isSeparator : separator c)
    (before after : List Char) :
    pieces separator (before ++ c :: after) = pieces separator before ++ pieces separator after := by
  induction before with
  | nil =>
    change (if separator c then [] :: pieces separator after else _) = [] :: pieces separator after
    rw [if_pos isSeparator]
  | cons d before inductionHypothesis =>
    rw [List.cons_append, pieces, pieces, inductionHypothesis]
    split
    · rfl
    · cases same : pieces separator before with
      | nil => exact absurd same (pieces_ne_nil separator before)
      | cons piece others => rfl

theorem pieces_single {separator : Char → Bool} {token : List Char}
    (inside : ∀ d ∈ token, separator d = false) : pieces separator token = [token] := by
  induction token with
  | nil => rfl
  | cons d token inductionHypothesis =>
    have notSeparator : ¬ separator d := by simp [inside d List.mem_cons_self]
    rw [pieces, if_neg notSeparator,
      inductionHypothesis fun e member => inside e (List.mem_cons_of_mem _ member)]

/-- A run without blanks that a blank ends is the first word. -/
theorem words_append {token rest : List Char} {c : Char} (filled : token ≠ [])
    (inside : ∀ d ∈ token, isBlank d = false) (blank : isBlank c) :
    words (token ++ c :: rest) = token :: words rest := by
  rw [words, pieces_append inside blank, List.filter_cons_of_pos (by simpa using filled), words]

theorem words_single {token : List Char} (filled : token ≠ [])
    (inside : ∀ d ∈ token, isBlank d = false) : words token = [token] := by
  rw [words, pieces_single inside, List.filter_cons_of_pos (by simpa using filled),
    List.filter_nil]

/-- Blanks in front do not change the words. -/
theorem words_blanks (count : Nat) (rest : List Char) :
    words (List.replicate count ' ' ++ rest) = words rest := by
  induction count with
  | zero => rw [List.replicate_zero, List.nil_append]
  | succ count inductionHypothesis =>
    rw [List.replicate_succ, List.cons_append, ← inductionHypothesis, words, pieces,
      if_pos (by decide), List.filter_cons_of_neg (by decide), words]

/-- No visible ASCII character is a blank. -/
theorem not_isBlank_of_toNat {c : Char} (low : 32 < c.toNat) (high : c.toNat < 127) :
    isBlank c = false := by
  simp only [isBlank, Bool.or_eq_false_iff, Bool.and_eq_false_iff, decide_eq_false_iff_not,
    beq_eq_false_iff_ne]
  omega

/-- Nothing is dropped behind a character that is not blank. -/
theorem trimEnd_concat {c : Char} (notBlank : isBlank c = false) (text : List Char) :
    trimEnd (text ++ [c]) = text ++ [c] := by
  simp [trimEnd, dropEndWhile, notBlank]

/-- Nothing is dropped from a text without blanks. -/
theorem trim_of_not_isBlank {text : List Char} (noBlank : ∀ c ∈ text, isBlank c = false) :
    trim text = text := by
  have keepsStart : ∀ kept : List Char, (∀ c ∈ kept, isBlank c = false) →
      kept.dropWhile isBlank = kept := by
    intro kept noBlank
    cases kept with
    | nil => rfl
    | cons first rest =>
      exact List.dropWhile_cons_of_neg (by simp [noBlank first List.mem_cons_self])
  rw [trim, trimStart, keepsStart text noBlank, trimEnd, dropEndWhile, keepsStart text.reverse,
    List.reverse_reverse]
  exact fun c member => noBlank c (List.mem_reverse.mp member)

theorem not_isBlank_of_isDigit {c : Char} (digit : c.isDigit) : isBlank c = false := by
  have range : 48 ≤ c.toNat ∧ c.toNat ≤ 57 := Char.isDigit_iff_toNat.mp digit
  exact not_isBlank_of_toNat (by omega) (by omega)

end CompiledCode.Text
