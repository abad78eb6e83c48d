import CompiledCode.Bytes.Hexadecimal
import CompiledCode.Proofs.Text.NumberRoundTrip

/-!
The hexadecimal text of bytes has two digits for each byte, the high one first. Its letters are
lower-case, and it holds neither blanks nor line feeds.
-/

namespace CompiledCode

/-- The two digits of a byte. -/
def byteDigits (byte : UInt8) : List Char :=
  [Nat.digitChar (byte.toNat / 16), Nat.digitChar (byte.toNat % 16)]

/-- A byte below sixteen gets a zero in front. -/
theorem toList_byteHexadecimal (byte : UInt8) :
    (byteHexadecimal byte).toList = byteDigits byte := by
  have range : byte.toNat < 256 := byte.toNat_lt
  rw [byteHexadecimal, Text.toList_padStart, Text.hexadecimal, String.toList_ofList,
    String.length_ofList]
  by_cases short : byte.toNat < 16
  · have high : byte.toNat / 16 = 0 := by omega
    have low : byte.toNat % 16 = byte.toNat := by omega
    rw [Nat.toDigits_of_lt_base short, byteDigits, high, low]
    rfl
  · rw [Nat.toDigits_of_base_le (by omega) (by omega), Nat.toDigits_of_lt_base (by omega)]
    rfl

theorem toList_bytesHexadecimal (bytes : List UInt8) :
    (bytesHexadecimal bytes).toList = bytes.flatMap byteDigits := by
  rw [bytesHexadecimal, String.toList_join, List.flatMap_map]
  simp only [toList_byteHexadecimal]

theorem length_bytesHexadecimal (bytes : List UInt8) :
    (bytesHexadecimal bytes).length = 2 * bytes.length := by
  rw [← String.length_toList, toList_bytesHexadecimal]
  induction bytes with
  | nil => rfl
  | cons first rest inductionHypothesis =>
    rw [List.flatMap_cons, List.length_append, inductionHypothesis, List.length_cons, Nat.mul_succ,
      Nat.add_comm]
    rfl

theorem digitChar_visible {n : Nat} (isDigit : n < 16) :
    32 < n.digitChar.toNat ∧ n.digitChar.toNat < 127 ∧ n.digitChar.toLower = n.digitChar := by
  have each : ∀ n < 16, 32 < n.digitChar.toNat ∧ n.digitChar.toNat < 127 ∧
      n.digitChar.toLower = n.digitChar := by decide
  exact each n isDigit

section Characters

variable {bytes : List UInt8} {c : Char} (member : c ∈ (bytesHexadecimal bytes).toList)

include member

theorem mem_bytesHexadecimal : ∃ n < 16, c = Nat.digitChar n := by
  rw [toList_bytesHexadecimal] at member
  obtain ⟨byte, _, inByte⟩ := List.mem_flatMap.mp member
  have range : byte.toNat < 256 := byte.toNat_lt
  simp only [byteDigits, List.mem_cons, List.not_mem_nil, or_false] at inByte
  rcases inByte with high | low
  · exact ⟨byte.toNat / 16, by omega, high⟩
  · exact ⟨byte.toNat % 16, by omega, low⟩

theorem visible_of_mem_bytesHexadecimal : 32 < c.toNat ∧ c.toNat < 127 := by
  obtain ⟨n, isDigit, rfl⟩ := mem_bytesHexadecimal member
  obtain ⟨low, high, _⟩ := digitChar_visible isDigit
  exact ⟨low, high⟩

theorem toLower_of_mem_bytesHexadecimal : c.toLower = c := by
  obtain ⟨n, isDigit, rfl⟩ := mem_bytesHexadecimal member
  exact (digitChar_visible isDigit).2.2

end Characters

/-- The letters are lower-case already. -/
theorem lowerAscii_bytesHexadecimal (bytes : List UInt8) :
    Text.lowerAscii (bytesHexadecimal bytes) = bytesHexadecimal bytes := by
  have kept : (bytesHexadecimal bytes).toList.map Char.toLower =
      (bytesHexadecimal bytes).toList.map id :=
    List.map_congr_left fun c member => toLower_of_mem_bytesHexadecimal member
  rw [Text.lowerAscii, kept, List.map_id, String.ofList_toList]

end CompiledCode
