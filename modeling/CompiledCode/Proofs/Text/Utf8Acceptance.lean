import CompiledCode.Proofs.Text.Utf8RoundTrip
import Mathlib.Tactic.SplitIfs

/-!
Only the bytes of texts are decoded. A character that is taken from bytes has just these bytes,
since the bounds on the bytes leave out longer spellings, surrogates and what lies beyond the last
character.
-/

namespace CompiledCode.Text.Utf8

section Characters

variable {v : Nat}

theorem toNat_ofNat (valid : v < 0xD800 ∨ 0xDFFF < v ∧ v < 0x110000) :
    (Char.ofNat v).val.toNat = v := by
  have isChar : v.isValidChar := valid
  rw [Char.ofNat, dif_pos isChar]
  rfl

theorem encodeChar_two (low : 0x80 ≤ v) (high : v ≤ 0x7FF) :
    String.utf8EncodeChar (.ofNat v) = [.ofNat (v / 64 % 32 + 192), .ofNat (v % 64 + 128)] := by
  rw [String.utf8EncodeChar, toNat_ofNat (by omega), if_neg (by omega), if_pos (by omega)]

theorem encodeChar_three (low : 0x800 ≤ v) (high : v ≤ 0xFFFF)
    (scalar : v < 0xD800 ∨ 0xDFFF < v) : String.utf8EncodeChar (.ofNat v) =
      [.ofNat (v / 4096 % 16 + 224), .ofNat (v / 64 % 64 + 128), .ofNat (v % 64 + 128)] := by
  rw [String.utf8EncodeChar, toNat_ofNat (by omega), if_neg (by omega), if_neg (by omega),
    if_pos (by omega)]

theorem encodeChar_four (low : 0x10000 ≤ v) (high : v < 0x110000) :
    String.utf8EncodeChar (.ofNat v) =
      [.ofNat (v / 262144 % 8 + 240), .ofNat (v / 4096 % 64 + 128), .ofNat (v / 64 % 64 + 128),
        .ofNat (v % 64 + 128)] := by
  rw [String.utf8EncodeChar, toNat_ofNat (by omega), if_neg (by omega), if_neg (by omega),
    if_neg (by omega)]

end Characters

/-- A byte is the one that a number below 256 gives. -/
theorem eq_ofNat {byte : UInt8} {n : Nat} (same : byte.toNat = n) : byte = .ofNat n := by
  rw [← same, UInt8.ofNat_toNat]

/-- The bits of a first byte, and the bounds on the second that leave out what has other bytes. -/
theorem of_lead? {byte : UInt8} {start : Lead} (isLead : lead? byte = some start) :
    0x80 ≤ start.low ∧ start.high ≤ 0xBF ∧
      (start.following = 1 ∧ byte.toNat = start.bits + 0xC0 ∧ 2 ≤ start.bits ∧ start.bits ≤ 0x1F ∨
        start.following = 2 ∧ byte.toNat = start.bits + 0xE0 ∧ start.bits ≤ 0xF ∧
          (start.bits = 0 → 0xA0 ≤ start.low) ∧ (start.bits = 0xD → start.high ≤ 0x9F) ∨
        start.following = 3 ∧ byte.toNat = start.bits + 0xF0 ∧ start.bits ≤ 4 ∧
          (start.bits = 0 → 0x90 ≤ start.low) ∧ (start.bits = 4 → start.high ≤ 0x8F)) := by
  rw [lead?] at isLead
  split_ifs at isLead <;> obtain rfl := Option.some.inj isLead <;> dsimp only <;> omega

section Continuations

variable {low high value following result : Nat} {bytes tail : List UInt8}

/-- A byte that is read after the first is within its bounds. -/
theorem of_continuation_succ
    (success : continuation low high value (following + 1) bytes = (some result, tail)) :
    ∃ byte rest, bytes = byte :: rest ∧ low ≤ byte.toNat ∧ byte.toNat ≤ high ∧
      continuation 0x80 0xBF (64 * value + byte.toNat % 64) following rest =
        (some result, tail) := by
  cases bytes with
  | nil => cases success
  | cons byte rest =>
    rw [continuation] at success
    split at success
    · rename_i fits
      exact ⟨byte, rest, rfl, fits.1, fits.2, success⟩
    · cases success

theorem of_continuation_zero (success : continuation low high value 0 bytes = (some result, tail)) :
    result = value ∧ bytes = tail := by
  cases success
  exact ⟨rfl, rfl⟩

end Continuations

/-- A character is taken from its own bytes. -/
theorem of_next_some {byte : UInt8} {rest tail : List UInt8} {c : Char}
    (success : next byte rest = (some c, tail)) :
    byte :: rest = String.utf8EncodeChar c ++ tail := by
  rw [next] at success
  split at success
  · rename_i small
    obtain ⟨isByte, rfl⟩ := Prod.mk.inj success
    obtain rfl := Option.some.inj isByte
    have same : (Char.ofNat byte.toNat).toNat = byte.toNat := toNat_ofNat (by omega)
    rw [encodeChar_ascii (by omega), same, UInt8.ofNat_toNat, List.singleton_append]
  · split at success
    · cases success
    · rename_i start isLead
      dsimp only at success
      obtain ⟨isSome, tailEq⟩ := Prod.mk.inj success
      obtain ⟨v, valueEq, rfl⟩ := Option.map_eq_some_iff.mp isSome
      have read : continuation start.low start.high start.bits start.following rest =
          (some v, tail) := Prod.ext valueEq tailEq
      -- The bounds put the number in the range whose own bytes are as many.
      obtain ⟨isLow, isHigh, lengths⟩ := of_lead? isLead
      rcases lengths with ⟨count, first, bounds⟩ | ⟨count, first, bounds⟩ | ⟨count, first, bounds⟩
      · rw [count] at read
        obtain ⟨second, rest, rfl, low, high, read⟩ := of_continuation_succ read
        obtain ⟨rfl, rfl⟩ := of_continuation_zero read
        rw [encodeChar_two (by omega) (by omega)]
        simp only [List.cons_append, List.nil_append, List.cons.injEq, and_true]
        exact ⟨eq_ofNat (by omega), eq_ofNat (by omega)⟩
      · rw [count] at read
        obtain ⟨second, rest, rfl, low, high, read⟩ := of_continuation_succ read
        obtain ⟨third, rest, rfl, lowThird, highThird, read⟩ := of_continuation_succ read
        obtain ⟨rfl, rfl⟩ := of_continuation_zero read
        rw [encodeChar_three (by omega) (by omega) (by omega)]
        simp only [List.cons_append, List.nil_append, List.cons.injEq, and_true]
        exact ⟨eq_ofNat (by omega), eq_ofNat (by omega), eq_ofNat (by omega)⟩
      · rw [count] at read
        obtain ⟨second, rest, rfl, low, high, read⟩ := of_continuation_succ read
        obtain ⟨third, rest, rfl, lowThird, highThird, read⟩ := of_continuation_succ read
        obtain ⟨fourth, rest, rfl, lowFourth, highFourth, read⟩ := of_continuation_succ read
        obtain ⟨rfl, rfl⟩ := of_continuation_zero read
        rw [encodeChar_four (by omega) (by omega)]
        simp only [List.cons_append, List.nil_append, List.cons.injEq, and_true]
        exact ⟨eq_ofNat (by omega), eq_ofNat (by omega), eq_ofNat (by omega), eq_ofNat (by omega)⟩

/-- Where every part of the bytes is a character, they are the bytes of these characters. -/
theorem of_scalars (bytes : List UInt8) {text : List Char}
    (success : (scalars bytes).mapM id = some text) :
    bytes = text.flatMap String.utf8EncodeChar := by
  induction bytes using scalars.induct generalizing text with
  | case1 =>
    rw [scalars] at success
    cases success
    rfl
  | case2 byte rest inductionHypothesis =>
    rw [scalars, List.mapM_cons] at success
    obtain ⟨c, isChar, success⟩ := Option.bind_eq_some_iff.mp success
    obtain ⟨later, isLater, success⟩ := Option.bind_eq_some_iff.mp success
    obtain rfl := Option.some.inj success
    have taken : next byte rest = (some c, (next byte rest).2) := Prod.ext isChar rfl
    rw [of_next_some taken, List.flatMap_cons, ← inductionHypothesis isLater]

/-- Bytes are decoded exactly if they are those of a text. -/
theorem decode?_eq_some_iff {bytes : List UInt8} {text : String} :
    decode? bytes = some text ↔ encode text = bytes := by
  constructor
  · intro success
    obtain ⟨letters, isLetters, rfl⟩ := Option.map_eq_some_iff.mp success
    rw [encode, String.toList_ofList, ← of_scalars bytes isLetters]
  · rintro rfl
    exact decode?_encode text

end CompiledCode.Text.Utf8
