namespace CompiledCode.Text.Utf8

/-- The bytes of a text. -/
def encode (text : String) : List UInt8 := text.toList.flatMap String.utf8EncodeChar

/-- What a first byte announces: the bits it holds, the bounds on the second byte, the length. -/
structure Lead where
  bits : Nat
  low : Nat
  high : Nat
  following : Nat

/-- The well-formed first bytes of a sequence of more than one byte. -/
def lead? (byte : UInt8) : Option Lead :=
  let n := byte.toNat
  if 0xC2 ≤ n ∧ n ≤ 0xDF then some ⟨n - 0xC0, 0x80, 0xBF, 1⟩
  else if n = 0xE0 then some ⟨0, 0xA0, 0xBF, 2⟩
  else if n = 0xED then some ⟨n - 0xE0, 0x80, 0x9F, 2⟩
  else if 0xE1 ≤ n ∧ n ≤ 0xEF then some ⟨n - 0xE0, 0x80, 0xBF, 2⟩
  else if n = 0xF0 then some ⟨0, 0x90, 0xBF, 3⟩
  else if 0xF1 ≤ n ∧ n ≤ 0xF3 then some ⟨n - 0xF0, 0x80, 0xBF, 3⟩
  else if n = 0xF4 then some ⟨n - 0xF0, 0x80, 0x8F, 3⟩
  else none

/-- The bytes after the first are read until the character is complete or a byte does not fit. -/
def continuation (low high value : Nat) : Nat → List UInt8 → Option Nat × List UInt8
  | 0, rest => (some value, rest)
  | _ + 1, [] => (none, [])
  | following + 1, byte :: rest =>
    if low ≤ byte.toNat ∧ byte.toNat ≤ high then
      continuation 0x80 0xBF (64 * value + byte.toNat % 64) following rest
    else (none, byte :: rest)

theorem length_continuation_le (low high value following : Nat) (bytes : List UInt8) :
    (continuation low high value following bytes).2.length ≤ bytes.length := by
  induction following generalizing low high value bytes with
  | zero => simp [continuation]
  | succ following inductionHypothesis =>
    cases bytes with
    | nil => simp [continuation]
    | cons byte rest =>
      rw [continuation]
      split
      · exact Nat.le_succ_of_le (inductionHypothesis _ _ _ _)
      · exact Nat.le_refl _

/-- One character, or `none` for the longest ill-formed part, and the bytes after it. -/
def next (byte : UInt8) (rest : List UInt8) : Option Char × List UInt8 :=
  if byte.toNat < 0x80 then (some (.ofNat byte.toNat), rest)
  else match lead? byte with
    | none => (none, rest)
    | some start =>
      let (value, rest) := continuation start.low start.high start.bits start.following rest
      (value.map Char.ofNat, rest)

theorem length_next_le (byte : UInt8) (rest : List UInt8) :
    (next byte rest).2.length ≤ rest.length := by
  rw [next]
  split
  · exact Nat.le_refl _
  · split
    · exact Nat.le_refl _
    · exact length_continuation_le _ _ _ _ _

/-- The characters in order, with `none` in the place of each ill-formed part. -/
def scalars : List UInt8 → List (Option Char)
  | [] => []
  | byte :: rest => (next byte rest).1 :: scalars (next byte rest).2
termination_by bytes => bytes.length
decreasing_by exact Nat.lt_succ_of_le (length_next_le byte rest)

/-- The text of well-formed bytes. -/
def decode? (bytes : List UInt8) : Option String :=
  ((scalars bytes).mapM id).map String.ofList

/-- The text of any bytes, with the replacement character for each ill-formed part. -/
def decodeLossy (bytes : List UInt8) : String :=
  String.ofList ((scalars bytes).map (·.getD '\uFFFD'))

end CompiledCode.Text.Utf8
