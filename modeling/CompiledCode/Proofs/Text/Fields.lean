import CompiledCode.Proofs.Text.NumberRoundTrip
import Mathlib.Data.List.TakeWhile

/-!
What is left of a text without the blanks around it, and which texts name a word, said without the
steps that find them.
-/

namespace CompiledCode.Text

/-- The middle of a text has blanks on both sides and does not start or end with one. -/
def IsTrimmed (text middle : List Char) : Prop :=
  ∃ before after, text = before ++ (middle ++ after) ∧
    (∀ c ∈ before, isBlank c) ∧ (∀ c ∈ after, isBlank c) ∧
    (∀ c ∈ middle.head?, isBlank c = false) ∧ (∀ c ∈ middle.getLast?, isBlank c = false)

/-- Decimal digits, behind at most one plus sign, that have the value. -/
def Names (text : List Char) (value : UInt64) : Prop :=
  ∃ digits, (text = digits ∨ text = '+' :: digits) ∧ digits ≠ [] ∧ (∀ c ∈ digits, c.isDigit) ∧
    digitsValue digits = value.toNat

/-- Blanks are dropped up to the first character that is not one. -/
theorem dropWhile_isBlank {before kept : List Char} (blank : ∀ c ∈ before, isBlank c)
    (stop : ∀ c ∈ kept.head?, isBlank c = false) : (before ++ kept).dropWhile isBlank = kept := by
  rw [List.dropWhile_append_of_pos blank]
  cases kept with
  | nil => rfl
  | cons c rest => exact List.dropWhile_cons_of_neg (by simp [stop c rfl])

theorem trim_of_isTrimmed {text middle : List Char} (trimmed : IsTrimmed text middle) :
    trim text = middle := by
  obtain ⟨before, after, rfl, blankBefore, blankAfter, start, stop⟩ := trimmed
  have blankReversed : ∀ c ∈ after.reverse, isBlank c := by simpa using blankAfter
  have endReached : ∀ c ∈ middle.reverse.head?, isBlank c = false := by simpa using stop
  have atEnd : trimEnd (middle ++ after) = middle := by
    rw [trimEnd, dropEndWhile, List.reverse_append, dropWhile_isBlank blankReversed endReached,
      List.reverse_reverse]
  by_cases nothing : middle = []
  · -- Everything is blank, and the blanks behind the middle are already dropped at the start.
    subst nothing
    have allBlank : ∀ c ∈ before ++ ([] ++ after), isBlank c := by
      simpa [or_imp, forall_and] using ⟨blankBefore, blankAfter⟩
    rw [trim, trimStart, List.dropWhile_eq_nil_iff.mpr allBlank]
    rfl
  · obtain ⟨c, rest, rfl⟩ := List.exists_cons_of_ne_nil nothing
    have sameStart : ∀ d ∈ (c :: rest ++ after).head?, isBlank d = false := start
    rw [trim, trimStart, dropWhile_isBlank blankBefore sameStart, atEnd]

/-- What is dropped is blank, and what is kept does not start with a blank. -/
theorem dropWhile_parts (text : List Char) :
    ∃ before, text = before ++ text.dropWhile isBlank ∧ (∀ c ∈ before, isBlank c) ∧
      ∀ c ∈ (text.dropWhile isBlank).head?, isBlank c = false := by
  refine ⟨text.takeWhile isBlank, List.takeWhile_append_dropWhile.symm,
    fun c member => List.mem_takeWhile_imp member, ?_⟩
  have stopped := List.head?_dropWhile_not isBlank text
  intro c isHead
  rw [Option.mem_def.mp isHead] at stopped
  simpa using stopped

theorem isTrimmed_trim (text : List Char) : IsTrimmed text (trim text) := by
  obtain ⟨before, parts, blankBefore, start⟩ := dropWhile_parts text
  obtain ⟨after, back, blankAfter, stop⟩ := dropWhile_parts (trimStart text).reverse
  have kept : trimStart text = trim text ++ after.reverse := by
    rw [← List.reverse_reverse (trimStart text), back, List.reverse_append]
    rfl
  refine ⟨before, after.reverse, ?_, blankBefore, by simpa using blankAfter, ?_, ?_⟩
  · rw [← kept]
    exact parts
  · intro c isHead
    refine start c ?_
    change c ∈ (trimStart text).head?
    rw [kept, List.head?_append]
    simp [Option.mem_def.mp isHead]
  · rw [trim, trimEnd, dropEndWhile, List.getLast?_reverse]
    exact stop

/-- The text between the blanks is found, and it is the only one. -/
theorem trim_eq_iff {text middle : List Char} : trim text = middle ↔ IsTrimmed text middle := by
  constructor
  · rintro rfl
    exact isTrimmed_trim text
  · exact trim_of_isTrimmed

theorem digits?_eq_some_iff {text : List Char} {value : Nat} :
    digits? text = some value ↔
      text ≠ [] ∧ (∀ c ∈ text, c.isDigit) ∧ digitsValue text = value := by
  simp [digits?, and_assoc]

/-- A plus sign is no digit, so it is never read as one. -/
theorem natural?_eq_some_iff {text : List Char} {value : Nat} :
    natural? text = some value ↔
      ∃ digits, (text = digits ∨ text = '+' :: digits) ∧ digits ≠ [] ∧ (∀ c ∈ digits, c.isDigit) ∧
        digitsValue digits = value := by
  constructor
  · intro success
    unfold natural? at success
    split at success
    · rename_i digits
      exact ⟨digits, .inr rfl, digits?_eq_some_iff.mp success⟩
    · exact ⟨text, .inl rfl, digits?_eq_some_iff.mp success⟩
  · rintro ⟨digits, rfl | rfl, filled, onlyDigits, rfl⟩
    · exact natural?_of_isDigit filled onlyDigits
    · exact digits?_of_isDigit filled onlyDigits

/-- The words that are read are the numbers below 2^64, each from any of its spellings. -/
theorem word?_eq_some_iff {text : List Char} {value : UInt64} :
    word? text = some value ↔ Names text value := by
  constructor
  · intro success
    obtain ⟨number, isNumber, success⟩ := Option.bind_eq_some_iff.mp success
    split at success
    · rename_i fits
      obtain rfl := Option.some.inj success
      rw [natural?_eq_some_iff] at isNumber
      rw [Names, UInt64.toNat_ofNat_of_lt' fits]
      exact isNumber
    · cases success
  · intro names
    have isNumber : natural? text = some value.toNat := natural?_eq_some_iff.mpr names
    rw [word?, isNumber]
    simp [value.toNat_lt]

end CompiledCode.Text
