import CompiledCode.Proofs.Bytes.Reading
import CompiledCode.Proofs.Bytes.VarintGroups

/-!
Both writers of numbers give the same bytes for a word, and both readers take the bytes of a number
back to the number, whatever follows them.
-/

namespace CompiledCode.Varint

/-- The top bit is added to a group of seven bits. -/
theorem toNat_continued {group : Nat} (small : group < 128) :
    (UInt8.ofNat group ||| 0x80).toNat = group + 128 := by
  have joined := Nat.two_pow_add_eq_or_of_lt (i := 7) small 1
  have groupSize : group % 256 = group := Nat.mod_eq_of_lt (by omega)
  rw [UInt8.toNat_or, UInt8.toNat_ofNat', groupSize]
  change group ||| 2 ^ 7 * 1 = group + 128
  rw [Nat.or_comm, ← joined, Nat.add_comm]

theorem groups_ne_nil (value : Nat) : groups value ≠ [] := by
  rw [groups]
  split <;> simp

/-- The groups below the highest one are marked as continued. -/
theorem encodeNatural_eq (value : Nat) :
    encodeNatural value =
      if value < 128 then [.ofNat value]
      else (.ofNat (value % 128) ||| 0x80) :: encodeNatural (value / 128) := by
  rw [encodeNatural, groups]
  split
  · rfl
  · obtain ⟨first, rest, split⟩ := List.exists_cons_of_ne_nil (groups_ne_nil (value / 128))
    rw [encodeNatural, split, chain]
    simp

theorem toNat_higher (value : UInt64) : (value >>> 7).toNat = value.toNat / 128 := by
  simp [UInt64.toNat_shiftRight, Nat.shiftRight_eq_div_pow]

/-- The lowest group of a word. -/
theorem toUInt8_lowest (value : UInt64) : (value &&& 0x7F).toUInt8 = .ofNat (value.toNat % 128) := by
  apply UInt8.toNat_inj.mp
  have masked : (value &&& 0x7F).toNat = value.toNat % 128 := by
    rw [UInt64.toNat_and]
    exact Nat.and_two_pow_sub_one_eq_mod value.toNat 7
  rw [UInt64.toNat_toUInt8, masked, UInt8.toNat_ofNat']

/-- A word has the bytes of the natural number that it is. -/
theorem encodeWord_eq (value : UInt64) : encodeWord value = encodeNatural value.toNat := by
  induction value using encodeWord.induct with
  | case1 value higher isLast =>
    have small : value.toNat < 128 := by
      have none := congrArg UInt64.toNat isLast
      rw [toNat_higher] at none
      change value.toNat / 128 = 0 at none
      omega
    rw [encodeWord, encodeNatural_eq, if_pos isLast, if_pos small, toUInt8_lowest,
      Nat.mod_eq_of_lt small]
  | case2 value higher notLast inductionHypothesis =>
    have large : ¬ value.toNat < 128 := by
      intro small
      apply notLast
      apply UInt64.toNat_inj.mp
      rw [toNat_higher]
      exact Nat.div_eq_of_lt small
    rw [encodeWord, encodeNatural_eq, if_neg notLast, if_neg large, toUInt8_lowest]
    rw [inductionHypothesis, toNat_higher]

/-- The lowest group and the number above it are worth the number. -/
theorem lowest_add_higher (value number index : Nat) :
    value + number % 128 * 2 ^ (7 * index) + number / 128 * 2 ^ (7 * (index + 1)) =
      value + number * 2 ^ (7 * index) := by
  conv_rhs => rw [← Nat.div_add_mod number 128]
  rw [Nat.mul_succ, Nat.pow_add]
  ring

/-- The reader of words takes up where the groups before `index` have given `value`. -/
theorem wordFrom_encodeNatural (start index value offset number : Nat) (tail : List UInt8)
    (inRange : index ≤ 9) (fits : value + number * 2 ^ (7 * index) < 2 ^ 64) :
    wordFrom start index value offset (encodeNatural number ++ tail) =
      .ok (.ofNat (value + number * 2 ^ (7 * index)))
        ⟨offset + (encodeNatural number).length, tail⟩ := by
  induction number using Nat.strongRecOn generalizing index value offset with
  | ind number inductionHypothesis =>
    rw [encodeNatural_eq]
    split
    · rename_i small
      have accepted : ¬ ((index = 9 ∧ 1 < number) ∨ 9 < index) := by
        rintro (⟨rfl, tooLarge⟩ | beyond) <;> omega
      simp [wordFrom, toNat_last small, Nat.mod_eq_of_lt small, accepted, small]
    · rename_i large
      have total := lowest_add_higher value number index
      have early : index + 1 ≤ 9 := by
        have positive : 1 ≤ number / 128 := by omega
        have least : 2 ^ (7 * (index + 1)) ≤ number / 128 * 2 ^ (7 * (index + 1)) :=
          Nat.le_mul_of_pos_left _ positive
        have below : 2 ^ (7 * (index + 1)) < 2 ^ 64 := by omega
        have exponents := (Nat.pow_lt_pow_iff_right (by decide)).mp below
        omega
      have byteValue := toNat_continued (Nat.mod_lt number (show 0 < 128 by decide))
      have tailRead := inductionHypothesis (number / 128) (by omega) (index + 1)
        (value + number % 128 * 2 ^ (7 * index)) (offset + 1) early (by omega)
      have accepted : ¬ ((index = 9 ∧ 1 < number % 128) ∨ 9 < index) := by omega
      have continued : ¬ number % 128 + 128 < 128 := by omega
      rw [List.cons_append, wordFrom]
      simp only [byteValue, Nat.add_mod_right, Nat.mod_mod, if_neg accepted, if_neg continued]
      rw [tailRead, total, List.length_cons]
      congr 2
      omega

/-- The reader of natural numbers takes up where the groups before `index` have given `value`. -/
theorem naturalFrom_encodeNatural (index value offset number : Nat) (tail : List UInt8) :
    naturalFrom index value offset (encodeNatural number ++ tail) =
      .ok (value + number * 2 ^ (7 * index)) ⟨offset + (encodeNatural number).length, tail⟩ := by
  induction number using Nat.strongRecOn generalizing index value offset with
  | ind number inductionHypothesis =>
    rw [encodeNatural_eq]
    split
    · rename_i small
      simp [naturalFrom, toNat_last small, Nat.mod_eq_of_lt small, small]
    · rename_i large
      have total := lowest_add_higher value number index
      have byteValue := toNat_continued (Nat.mod_lt number (show 0 < 128 by decide))
      have tailRead := inductionHypothesis (number / 128) (by omega) (index + 1)
        (value + number % 128 * 2 ^ (7 * index)) (offset + 1)
      have continued : ¬ number % 128 + 128 < 128 := by omega
      rw [List.cons_append, naturalFrom]
      simp only [byteValue, if_neg continued, Nat.add_mod_right, Nat.mod_mod]
      rw [tailRead, total, List.length_cons]
      congr 2
      omega

theorem natural_accepts (number : Nat) : natural.Accepts (encodeNatural number) number := by
  intro start tail
  rw [natural_eq, naturalFrom_encodeNatural]
  simp

theorem word_accepts (value : UInt64) : word.Accepts (encodeWord value) value := by
  intro start tail
  have fits : 0 + value.toNat * 2 ^ (7 * 0) < 2 ^ 64 := by
    have bound := value.toNat_lt
    omega
  rw [encodeWord_eq, word, wordFrom_encodeNatural _ _ _ _ _ _ (by decide) fits]
  simp

theorem count_accepts {length : Nat} (fits : length < 2 ^ 64) :
    count.Accepts (encodeWord (.ofNat length)) length := by
  have reading := Read.map_accepts UInt64.toNat (word_accepts (.ofNat length))
  rwa [UInt64.toNat_ofNat', Nat.mod_eq_of_lt fits] at reading

theorem wordFrom_failure {start index value offset : Nat} {bytes : List UInt8} {next : Cursor}
    {failure : ReadError} (failed : wordFrom start index value offset bytes = .error failure next) :
    failure = .invalidVarint start ∨ ∃ stop, failure = .unexpectedEnd stop := by
  induction bytes generalizing index value offset with
  | nil =>
    cases failed
    exact .inr ⟨_, rfl⟩
  | cons byte rest inductionHypothesis =>
    unfold wordFrom at failed
    dsimp only at failed
    split at failed
    · cases failed
      exact .inl rfl
    · split at failed
      · cases failed
      · exact inductionHypothesis failed

theorem naturalFrom_failure {index value offset : Nat} {bytes : List UInt8} {next : Cursor}
    {failure : ReadError} (failed : naturalFrom index value offset bytes = .error failure next) :
    ∃ stop, failure = .unexpectedEnd stop := by
  induction bytes generalizing index value offset with
  | nil =>
    cases failed
    exact ⟨_, rfl⟩
  | cons byte rest inductionHypothesis =>
    unfold naturalFrom at failed
    dsimp only at failed
    split at failed
    · cases failed
    · exact inductionHypothesis failed

section Failures

variable {allowed : ReadError → Prop} (endAllowed : ∀ stop, allowed (.unexpectedEnd stop))

include endAllowed

theorem natural_failsOnlyWith : natural.FailsOnlyWith allowed := by
  intro cursor next failure failed
  rw [natural_eq] at failed
  obtain ⟨stop, rfl⟩ := naturalFrom_failure failed
  exact endAllowed stop

theorem word_failsOnlyWith (varintAllowed : ∀ start, allowed (.invalidVarint start)) :
    word.FailsOnlyWith allowed := by
  intro cursor next failure failed
  rcases wordFrom_failure failed with rfl | ⟨stop, rfl⟩
  · exact varintAllowed _
  · exact endAllowed stop

end Failures

end CompiledCode.Varint
