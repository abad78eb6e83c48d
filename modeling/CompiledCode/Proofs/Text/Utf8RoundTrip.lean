import CompiledCode.Text.Utf8
import Mathlib.Data.List.Flatten

/-!
The bytes of a text give the text back, whatever the characters are.
-/

namespace CompiledCode.Text.Utf8

theorem toNat_byte {n : Nat} (fits : n < 256) : (UInt8.ofNat n).toNat = n := Nat.mod_eq_of_lt fits

/-- A byte that follows adds its six bits. -/
theorem continuation_succ {low high value following bits : Nat} {rest : List UInt8}
    (isLow : low ≤ bits % 64 + 128) (isHigh : bits % 64 + 128 ≤ high) :
    continuation low high value (following + 1) (.ofNat (bits % 64 + 128) :: rest) =
      continuation 0x80 0xBF (64 * value + bits % 64) following rest := by
  rw [continuation, toNat_byte (by omega), if_pos ⟨isLow, isHigh⟩]
  congr 1
  omega

theorem next_two {v : Nat} (low : 0x80 ≤ v) (high : v ≤ 0x7FF) (tail : List UInt8) :
    next (.ofNat (v / 64 % 32 + 192)) (.ofNat (v % 64 + 128) :: tail) =
      (some (.ofNat v), tail) := by
  have bits : v / 64 % 32 + 192 - 0xC0 = v / 64 := by omega
  have start : lead? (.ofNat (v / 64 % 32 + 192)) = some ⟨v / 64, 0x80, 0xBF, 1⟩ := by
    rw [lead?, toNat_byte (by omega), if_pos (by omega), bits]
  rw [next, toNat_byte (by omega), if_neg (by omega), start]
  dsimp only
  rw [continuation_succ (by omega) (by omega), continuation, Nat.div_add_mod]
  rfl

theorem next_three {v : Nat} (low : 0x800 ≤ v) (high : v ≤ 0xFFFF)
    (scalar : v < 0xD800 ∨ 0xDFFF < v) (tail : List UInt8) :
    next (.ofNat (v / 4096 % 16 + 224))
        (.ofNat (v / 64 % 64 + 128) :: .ofNat (v % 64 + 128) :: tail) =
      (some (.ofNat v), tail) := by
  obtain ⟨lowest, highest, start, isLow, isHigh⟩ : ∃ lowest highest,
      lead? (.ofNat (v / 4096 % 16 + 224)) = some ⟨v / 4096, lowest, highest, 2⟩ ∧
        lowest ≤ v / 64 % 64 + 128 ∧ v / 64 % 64 + 128 ≤ highest := by
    have bits : v / 4096 % 16 + 224 - 0xE0 = v / 4096 := by omega
    rw [lead?, toNat_byte (by omega), if_neg (by omega), bits]
    split
    · rename_i first
      have none : v / 4096 = 0 := by omega
      exact ⟨0xA0, 0xBF, by rw [none], by omega, by omega⟩
    · split
      · exact ⟨0x80, 0x9F, rfl, by omega, by omega⟩
      · rw [if_pos (by omega)]
        exact ⟨0x80, 0xBF, rfl, by omega, by omega⟩
  rw [next, toNat_byte (by omega), if_neg (by omega), start]
  dsimp only
  rw [continuation_succ isLow isHigh, continuation_succ (by omega) (by omega), continuation]
  have value : 64 * (64 * (v / 4096) + v / 64 % 64) + v % 64 = v := by omega
  rw [value]
  rfl

theorem next_four {v : Nat} (low : 0x10000 ≤ v) (high : v < 0x110000) (tail : List UInt8) :
    next (.ofNat (v / 262144 % 8 + 240))
        (.ofNat (v / 4096 % 64 + 128) :: .ofNat (v / 64 % 64 + 128) ::
          .ofNat (v % 64 + 128) :: tail) =
      (some (.ofNat v), tail) := by
  obtain ⟨lowest, highest, start, isLow, isHigh⟩ : ∃ lowest highest,
      lead? (.ofNat (v / 262144 % 8 + 240)) = some ⟨v / 262144, lowest, highest, 3⟩ ∧
        lowest ≤ v / 4096 % 64 + 128 ∧ v / 4096 % 64 + 128 ≤ highest := by
    have bits : v / 262144 % 8 + 240 - 0xF0 = v / 262144 := by omega
    rw [lead?, toNat_byte (by omega), if_neg (by omega), if_neg (by omega), if_neg (by omega),
      if_neg (by omega), bits]
    split
    · rename_i first
      have none : v / 262144 = 0 := by omega
      exact ⟨0x90, 0xBF, by rw [none], by omega, by omega⟩
    · split
      · exact ⟨0x80, 0xBF, rfl, by omega, by omega⟩
      · rw [if_pos (by omega)]
        exact ⟨0x80, 0x8F, rfl, by omega, by omega⟩
  rw [next, toNat_byte (by omega), if_neg (by omega), start]
  dsimp only
  rw [continuation_succ isLow isHigh, continuation_succ (by omega) (by omega),
    continuation_succ (by omega) (by omega), continuation]
  have value : 64 * (64 * (64 * (v / 262144) + v / 4096 % 64) + v / 64 % 64) + v % 64 = v := by
    omega
  rw [value]
  rfl

/-- The bytes of a character are taken as that character. -/
theorem scalars_encodeChar (c : Char) (tail : List UInt8) :
    scalars (String.utf8EncodeChar c ++ tail) = some c :: scalars tail := by
  have same : Char.ofNat c.val.toNat = c := Char.ofNat_toNat c
  have valid : c.val.toNat < 0xD800 ∨ (0xDFFF < c.val.toNat ∧ c.val.toNat < 0x110000) := c.valid
  rw [String.utf8EncodeChar]
  generalize c.val.toNat = v at same valid
  split
  · have small : (UInt8.ofNat v).toNat = v := toNat_byte (by omega)
    rw [List.singleton_append, scalars, next, small, if_pos (by omega), same]
  · split
    · simp only [List.cons_append, List.nil_append]
      rw [scalars, next_two (by omega) (by omega), same]
    · split
      · simp only [List.cons_append, List.nil_append]
        rw [scalars, next_three (by omega) (by omega) (by omega), same]
      · simp only [List.cons_append, List.nil_append]
        rw [scalars, next_four (by omega) (by omega), same]

theorem scalars_encode (text : List Char) :
    scalars (text.flatMap String.utf8EncodeChar) = text.map some := by
  induction text with
  | nil => rw [List.flatMap_nil, scalars, List.map_nil]
  | cons c rest inductionHypothesis =>
    rw [List.flatMap_cons, scalars_encodeChar, inductionHypothesis, List.map_cons]

theorem mapM_some (text : List Char) : (text.map some).mapM id = some text := by
  induction text with
  | nil => rfl
  | cons c rest inductionHypothesis => simp [inductionHypothesis]

theorem decode?_encode (text : String) : decode? (encode text) = some text := by
  rw [decode?, encode, scalars_encode, mapM_some, Option.map_some, String.ofList_toList]

/-- No two texts have the same bytes. -/
theorem encode_injective : Function.Injective encode := by
  intro first second same
  have decoded := congrArg decode? same
  rw [decode?_encode, decode?_encode] at decoded
  exact Option.some.inj decoded

theorem encode_append (first second : String) :
    encode (first ++ second) = encode first ++ encode second := by
  rw [encode, String.toList_append, List.flatMap_append]
  rfl

theorem length_encode (text : String) : (encode text).length = text.utf8ByteSize := by
  rw [← String.size_toByteArray, ← String.utf8Encode_toList, List.utf8Encode,
    List.size_toByteArray, encode]

/-- Without some of its characters a text has no more bytes. -/
theorem length_encode_le {part whole : String} (isPart : part.toList.Sublist whole.toList) :
    (encode part).length ≤ (encode whole).length := (isPart.flatMap _).length_le

/-- A character below 128 is one byte. -/
theorem encodeChar_ascii {c : Char} (ascii : c.toNat < 128) :
    String.utf8EncodeChar c = [.ofNat c.toNat] := by
  have small : c.val.toNat ≤ 127 := Nat.le_of_lt_succ ascii
  rw [String.utf8EncodeChar]
  exact if_pos small

end CompiledCode.Text.Utf8
