import CompiledCode.Proofs.Bytes.VarintReaders
import CompiledCode.Proofs.Bytes.VarintRoundTrip

/-!
A number can be spelled in many ways, with zeros as its highest groups. The writers give the spelling
without them, and every other one is longer.
-/

namespace CompiledCode.Varint

section Spellings

variable {bytes front tail : List UInt8}

theorem eq_take_of_varint? (isFront : varint? bytes = some front) :
    front = bytes.take front.length := by
  obtain ⟨last, found, rfl⟩ := Option.map_eq_some_iff.mp isFront
  rw [List.length_take, List.take_eq_take_min]

/-- A byte with the top bit set is its group of seven bits marked as continued. -/
theorem continued_group {byte : UInt8} (continued : 128 ≤ byte.toNat) :
    UInt8.ofNat (byte.toNat % 128) ||| 0x80 = byte := by
  apply UInt8.toNat_inj.mp
  have inRange := byte.toNat_lt
  rw [toNat_continued (Nat.mod_lt _ (by decide))]
  omega

/-- A varint has the bytes that are written for its number, or it has more bytes than these. -/
theorem eq_encodeNatural_or_longer (isVarint : varint? (bytes ++ tail) = some bytes) :
    bytes = encodeNatural (groupsValue bytes) ∨
      (encodeNatural (groupsValue bytes)).length < bytes.length := by
  induction bytes with
  | nil => exact absurd rfl (ne_nil_of_varint? isVarint).1
  | cons byte rest inductionHypothesis =>
    by_cases isLast : byte.toNat < 128
    · rw [List.cons_append, varint?_last isLast] at isVarint
      obtain ⟨-, rfl⟩ := List.cons.inj (Option.some.inj isVarint)
      left
      have number : groupsValue [byte] = byte.toNat := Nat.mod_eq_of_lt isLast
      rw [number, encodeNatural_eq, if_pos isLast, UInt8.ofNat_toNat]
    · have continued : 128 ≤ byte.toNat := Nat.le_of_not_lt isLast
      rw [List.cons_append, varint?_continued continued] at isVarint
      obtain ⟨others, isOthers, same⟩ := Option.map_eq_some_iff.mp isVarint
      obtain ⟨-, rfl⟩ := List.cons.inj same
      have filled := List.length_pos_iff.mpr (ne_nil_of_varint? isOthers).1
      have lowest : groupsValue (byte :: others) % 128 = byte.toNat % 128 := by
        rw [groupsValue]
        omega
      have higher : groupsValue (byte :: others) / 128 = groupsValue others := by
        rw [groupsValue]
        omega
      rw [encodeNatural_eq, lowest, higher]
      split
      · -- All the higher groups are zeros, and one byte is enough.
        right
        rw [List.length_singleton, List.length_cons]
        omega
      · rw [continued_group continued]
        rcases inductionHypothesis isOthers with written | longer
        · exact .inl (congrArg (byte :: ·) written)
        · right
          rw [List.length_cons, List.length_cons]
          omega

/-- What is read as a natural number is the varint at the front. -/
theorem of_natural_ok {start number : Nat}
    (success : natural ⟨start, bytes ++ tail⟩ = .ok number ⟨start + bytes.length, tail⟩) :
    varint? (bytes ++ tail) = some bytes ∧ number = groupsValue bytes := by
  obtain ⟨found, unfinished⟩ := naturalFrom_eq 0 0 start (bytes ++ tail)
  cases isFront : varint? (bytes ++ tail) with
  | none =>
    rw [natural_eq, unfinished isFront] at success
    cases success
  | some front =>
    rw [natural_eq, found front isFront] at success
    injection success with numberEq stop
    have length : front.length = bytes.length := by
      have offsets := congrArg Cursor.offset stop
      dsimp only at offsets
      omega
    have whole := eq_take_of_varint? isFront
    rw [length, List.take_left] at whole
    subst whole
    exact ⟨rfl, by omega⟩

/-- The reader of words has no answer of its own. -/
theorem natural_of_word_ok {cursor next : Cursor} {value : UInt64}
    (success : word cursor = .ok value next) : natural cursor = .ok value.toNat next := by
  by_cases tooLong : IsTooLongFrom 0 cursor.rest
  · obtain ⟨stop, failed⟩ :=
      wordFrom_of_isTooLong (Nat.zero_le 9) tooLong cursor.offset 0 cursor.offset
    rw [word, failed] at success
    cases success
  · rw [word, wordFrom_of_not_isTooLong (Nat.zero_le 9) tooLong] at success
    obtain ⟨found, unfinished⟩ := naturalFrom_eq 0 0 cursor.offset cursor.rest
    cases isFront : varint? cursor.rest with
    | none =>
      rw [unfinished isFront] at success
      cases success
    | some front =>
      rw [isTooLongFrom_iff (Nat.zero_le 9) isFront] at tooLong
      rw [found front isFront] at success
      injection success with valueEq stop
      rw [natural_eq, found front isFront, ← stop, ← valueEq, UInt64.toNat_ofNat', Nat.mod_eq_of_lt]
      omega

end Spellings

/--
Both writers give the same bytes for a word, and the readers take the bytes of a number back to the
number and stop behind them. Bytes that either reader takes for the number, and takes as a whole,
are at least as many, and if they are as many they are the same.
-/
theorem encodeNatural_shortest (number : Nat) :
    (∀ start tail, natural ⟨start, encodeNatural number ++ tail⟩ =
      .ok number ⟨start + (encodeNatural number).length, tail⟩) ∧
    (∀ value : UInt64, value.toNat = number →
      encodeWord value = encodeNatural number ∧
      ∀ start tail, word ⟨start, encodeWord value ++ tail⟩ =
        .ok value ⟨start + (encodeWord value).length, tail⟩) ∧
    (∀ start bytes tail,
      (natural ⟨start, bytes ++ tail⟩ = .ok number ⟨start + bytes.length, tail⟩ ∨
        ∃ value : UInt64, value.toNat = number ∧
          word ⟨start, bytes ++ tail⟩ = .ok value ⟨start + bytes.length, tail⟩) →
      (encodeNatural number).length ≤ bytes.length ∧
        (bytes.length = (encodeNatural number).length → bytes = encodeNatural number)) := by
  refine ⟨natural_accepts number, ?_, ?_⟩
  · rintro value rfl
    exact ⟨encodeWord_eq value, word_accepts value⟩
  · intro start bytes tail success
    have asNatural : natural ⟨start, bytes ++ tail⟩ = .ok number ⟨start + bytes.length, tail⟩ := by
      rcases success with asNatural | ⟨value, rfl, asWord⟩
      · exact asNatural
      · exact natural_of_word_ok asWord
    obtain ⟨isVarint, rfl⟩ := of_natural_ok asNatural
    rcases eq_encodeNatural_or_longer isVarint with written | longer
    · exact ⟨written ▸ Nat.le_refl _, fun _ => written⟩
    · exact ⟨Nat.le_of_lt longer, fun same => absurd same (Nat.ne_of_gt longer)⟩

/-- The first number of three groups, in a spelling of four bytes with another byte behind it. -/
theorem encodeNatural_shortest_padded :
    let padded : List UInt8 := [0x80, 0x80, 0x81, 0x00]
    UInt64.toNat 16384 = 16384 ∧
    word ⟨0, padded ++ [7]⟩ = .ok 16384 ⟨4, [7]⟩ ∧
    (encodeNatural 16384).length ≤ 4 ∧
    (padded.length = (encodeNatural 16384).length → padded = encodeNatural 16384) ∧
    encodeWord 16384 = encodeNatural 16384 := by
  intro padded
  obtain ⟨-, words, shortest⟩ := encodeNatural_shortest 16384
  have success : word ⟨0, padded ++ [7]⟩ = .ok 16384 ⟨4, [7]⟩ := rfl
  obtain ⟨few, same⟩ := shortest 0 padded [7] (.inr ⟨16384, rfl, success⟩)
  exact ⟨rfl, success, few, same, (words 16384 rfl).1⟩

end CompiledCode.Varint
