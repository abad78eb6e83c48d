import CompiledCode.Proofs.Listing.Scanning
import CompiledCode.Proofs.Text.Utf8RoundTrip

/-!
A line is scanned byte by byte, and a token is cut out of it between the index where it started and
the one where it ends. Every cut is made between two characters, so the bytes in between are those
of a text, and the tokens are the ones that the characters of the line have.
-/

namespace CompiledCode

namespace Text.Utf8

/-- A byte that is not one of those after the first byte of a character. -/
def startsCharacter (byte : UInt8) : Bool := byte.toNat < 0x80 || 0xC0 ≤ byte.toNat

/-- The index stands between two characters or behind the last one. -/
def isBoundary (bytes : List UInt8) (index : Nat) : Bool :=
  index == bytes.length || bytes[index]?.any startsCharacter

/-- The text between two indices, if they stand in order and none of them inside of a character. -/
def slice? (bytes : List UInt8) (first last : Nat) : Option (List Char) :=
  if first ≤ last && isBoundary bytes first && isBoundary bytes last then
    (decode? ((bytes.take last).drop first)).map String.toList
  else none

/-- A character that is not ASCII has bytes of its own only. -/
theorem exists_encodeChar {c : Char} (wide : 128 ≤ c.toNat) : ∃ first others,
    String.utf8EncodeChar c = first :: others ∧ 0xC0 ≤ first.toNat ∧
      ∀ byte ∈ others, 0x80 ≤ byte.toNat := by
  have large : ¬ c.val.toNat ≤ 127 := Nat.not_le.mpr wide
  have follows (bits : Nat) : 0x80 ≤ (UInt8.ofNat (bits % 64 + 128)).toNat := by
    rw [toNat_byte (by omega)]
    omega
  rw [String.utf8EncodeChar, if_neg large]
  split
  · refine ⟨_, _, rfl, ?_, List.forall_mem_singleton.mpr (follows _)⟩
    rw [toNat_byte (by omega)]
    omega
  · have two (first second : Nat) :
        ∀ byte ∈ [UInt8.ofNat (first % 64 + 128), .ofNat (second % 64 + 128)],
          0x80 ≤ byte.toNat :=
      List.forall_mem_cons.mpr ⟨follows first, List.forall_mem_singleton.mpr (follows second)⟩
    split
    · refine ⟨_, _, rfl, ?_, two _ _⟩
      rw [toNat_byte (by omega)]
      omega
    · refine ⟨_, _, rfl, ?_, List.forall_mem_cons.mpr ⟨follows _, two _ _⟩⟩
      rw [toNat_byte (by omega)]
      omega

theorem exists_startsCharacter (c : Char) : ∃ first others,
    String.utf8EncodeChar c = first :: others ∧ startsCharacter first = true := by
  by_cases ascii : c.toNat < 128
  · refine ⟨_, _, encodeChar_ascii ascii, ?_⟩
    rw [startsCharacter, toNat_byte (by omega)]
    simp [ascii]
  · obtain ⟨first, others, bytes, isFirst, _⟩ := exists_encodeChar (Nat.le_of_not_lt ascii)
    exact ⟨first, others, bytes, by simp [startsCharacter, isFirst]⟩

/-- Behind a front of a text is a boundary of its bytes. -/
theorem isBoundary_append (before after : List Char) :
    isBoundary ((before ++ after).flatMap String.utf8EncodeChar)
      (before.flatMap String.utf8EncodeChar).length = true := by
  rw [List.flatMap_append, isBoundary]
  cases after with
  | nil => simp
  | cons c after =>
    obtain ⟨first, others, bytes, starts⟩ := exists_startsCharacter c
    simp [bytes, starts]

/-- A part of a text is the slice between the bytes in front of it and those up to its end. -/
theorem slice?_part (before part after : List Char) :
    slice? ((before ++ part ++ after).flatMap String.utf8EncodeChar)
      (before.flatMap String.utf8EncodeChar).length
      ((before ++ part).flatMap String.utf8EncodeChar).length = some part := by
  have first := isBoundary_append before (part ++ after)
  have last := isBoundary_append (before ++ part) after
  have inOrder : (before.flatMap String.utf8EncodeChar).length ≤
      ((before ++ part).flatMap String.utf8EncodeChar).length := by simp
  have between : ((before ++ part ++ after).flatMap String.utf8EncodeChar).take
      ((before ++ part).flatMap String.utf8EncodeChar).length =
        (before ++ part).flatMap String.utf8EncodeChar := by
    have split : (before ++ part ++ after).flatMap String.utf8EncodeChar =
        (before ++ part).flatMap String.utf8EncodeChar ++ after.flatMap String.utf8EncodeChar :=
      List.flatMap_append
    rw [split, List.take_left]
  rw [← List.append_assoc] at first
  rw [slice?, if_pos (by rw [first, last, decide_eq_true inOrder]; rfl), between,
    List.flatMap_append, List.drop_left]
  have decoded := decode?_encode (String.ofList part)
  rw [encode, String.toList_ofList] at decoded
  rw [decoded, Option.map_some, String.toList_ofList]

end Text.Utf8

namespace Listing

section Scan

/-- What the bytes in front of an index say: where the open token starts, the column of the last
token that was opened, and whether the index is between quotes. -/
structure ByteState where
  start : Option Nat
  column : Nat
  quoting : Quoting

/-- The byte of a separator. -/
def isSeparatorByte (byte : UInt8) : Bool := byte = 0x20 || byte = 0x09 || byte = 0x2C

def Quoting.nextByte (quoting : Quoting) (byte : UInt8) : Quoting :=
  match quoting with
  | outside => if byte = 0x22 then inside else outside
  | inside => if byte = 0x22 then outside else if byte = 0x5C then escaped else inside
  | escaped => inside

namespace ByteState

/-- Outside of quotes a byte opens a token if none is open. -/
def push (index : Nat) (byte : UInt8) (state : ByteState) : ByteState :=
  match state.start, state.quoting with
  | none, .outside => ⟨some index, index + 1, Quoting.outside.nextByte byte⟩
  | start, quoting => ⟨start, state.column, quoting.nextByte byte⟩

/-- The open token up to the index; nothing if the cut is not between characters. -/
def cut (line : List UInt8) (index : Nat) (state : ByteState) : Option (List Token) :=
  match state.start with
  | none => some []
  | some first => (Text.Utf8.slice? line first index).map fun text => [⟨state.column, text⟩]

/-- The last token, without the blanks at its end. -/
def finish (line : List UInt8) (index : Nat) (state : ByteState) :
    Option (Except Nat (List Token)) :=
  if state.quoting = .outside then
    match state.start with
    | none => some (.ok [])
    | some first => (Text.Utf8.slice? line first index).map fun text =>
        .ok (if (Text.trimEnd text).isEmpty then [] else [⟨state.column, Text.trimEnd text⟩])
  else some (.error state.column)

end ByteState

/-- The tokens from an index of the line on; nothing if a cut is not between characters. -/
def scanBytes (line : List UInt8) (index : Nat) (state : ByteState) :
    List UInt8 → Option (Except Nat (List Token))
  | [] => state.finish line index
  | byte :: rest =>
    if state.quoting = .outside ∧ byte = 0x23 then state.finish line index
    else if state.quoting = .outside ∧ isSeparatorByte byte then do
      let first ← state.cut line index
      let others ← scanBytes line (index + 1) { state with start := none } rest
      return (first ++ ·) <$> others
    else scanBytes line (index + 1) (state.push index byte) rest

end Scan

section Wide

variable {line rest : List UInt8} {index : Nat} {state : ByteState} {byte : UInt8}

/-- The bytes of a character that is not ASCII are no marks. -/
theorem plain_of_wide (wide : 0x80 ≤ byte.toNat) :
    byte ≠ 0x23 ∧ byte ≠ 0x22 ∧ byte ≠ 0x5C ∧ isSeparatorByte byte = false := by
  have differs (other : UInt8) (narrow : other.toNat < 0x80) : byte ≠ other := by
    rintro rfl
    omega
  refine ⟨differs _ (by decide), differs _ (by decide), differs _ (by decide), ?_⟩
  simp [isSeparatorByte, differs 0x20 (by decide), differs 0x09 (by decide),
    differs 0x2C (by decide)]

theorem scanBytes_wide (wide : 0x80 ≤ byte.toNat) :
    scanBytes line index state (byte :: rest) =
      scanBytes line (index + 1) (state.push index byte) rest := by
  obtain ⟨noSign, _, _, noSeparator⟩ := plain_of_wide wide
  rw [scanBytes, if_neg (by simp [noSign]), if_neg (by simp [noSeparator])]

/-- A token is open or quotes are, and no backslash waits for its character. -/
def ByteState.Settled (state : ByteState) : Prop :=
  (state.quoting = .outside → state.start ≠ none) ∧ state.quoting ≠ .escaped

theorem ByteState.push_settled (wide : 0x80 ≤ byte.toNat) (settled : state.Settled) :
    state.push index byte = state := by
  obtain ⟨_, noMark, noBackslash, _⟩ := plain_of_wide wide
  obtain ⟨start, column, quoting⟩ := state
  obtain ⟨opened, unescaped⟩ := settled
  cases quoting with
  | outside =>
    cases start with
    | none => exact absurd rfl (opened rfl)
    | some first => simp [push, Quoting.nextByte, noMark]
  | inside => simp [push, Quoting.nextByte, noMark, noBackslash]
  | escaped => exact absurd rfl unescaped

theorem ByteState.settled_push (wide : 0x80 ≤ byte.toNat) : (state.push index byte).Settled := by
  obtain ⟨_, noMark, noBackslash, _⟩ := plain_of_wide wide
  obtain ⟨start, column, quoting⟩ := state
  cases quoting <;> cases start <;>
    simp [push, Quoting.nextByte, Settled, noMark, noBackslash]

/-- More bytes of the same character change nothing. -/
theorem scanBytes_settled {bytes : List UInt8} (wide : ∀ byte ∈ bytes, 0x80 ≤ byte.toNat)
    (settled : state.Settled) : scanBytes line index state (bytes ++ rest) =
      scanBytes line (index + bytes.length) state rest := by
  induction bytes generalizing index with
  | nil => rfl
  | cons byte bytes inductionHypothesis =>
    obtain ⟨isWide, othersWide⟩ := List.forall_mem_cons.mp wide
    rw [List.cons_append, scanBytes_wide isWide, ByteState.push_settled isWide settled,
      inductionHypothesis othersWide, List.length_cons, Nat.add_assoc, Nat.add_comm 1]

end Wide

section Characters

variable {front text : List Char} {state : LineState} {bytes : ByteState} {column index : Nat}
  {c : Char}

/-- The bytes in front of an index have opened what their characters have opened. -/
structure ByteState.Mirrors (bytes : ByteState) (state : LineState) : Prop where
  start : bytes.start.map (· + 1) = state.start?
  column : ∀ start ∈ state.start?, bytes.column = start
  quoting : bytes.quoting = state.quoting

/-- An ASCII character is one byte, which says the same as the character. -/
theorem exists_byte (ascii : c.toNat < 128) : ∃ byte, String.utf8EncodeChar c = [byte] ∧
    (byte = 0x23 ↔ c = '#') ∧ isSeparatorByte byte = isSeparator c ∧
      ∀ quoting : Quoting, quoting.nextByte byte = quoting.next c := by
  have same (d : Char) (byte : UInt8) (isByte : byte.toNat = d.toNat) :
      UInt8.ofNat c.toNat = byte ↔ c = d := by
    rw [← UInt8.toNat_inj, Text.Utf8.toNat_byte (by omega), isByte, Char.toNat_inj]
  have mark := same '"' 0x22 rfl
  have backslash := same '\\' 0x5C rfl
  refine ⟨_, Text.Utf8.encodeChar_ascii ascii, same '#' 0x23 rfl, ?_, fun quoting => ?_⟩
  · simp only [isSeparatorByte, isSeparator, same ' ' 0x20 rfl, same '\t' 0x09 rfl,
      same ',' 0x2C rfl]
  · cases quoting with
    | outside => simp only [Quoting.nextByte, Quoting.next, mark]
    | inside => simp only [Quoting.nextByte, Quoting.next, mark, backslash]
    | escaped => rfl

theorem exists_wide (wide : 128 ≤ c.toNat) : ∃ first others,
    String.utf8EncodeChar c = first :: others ∧ (∀ byte ∈ first :: others, 0x80 ≤ byte.toNat) ∧
      ∀ quoting : Quoting, quoting.nextByte first = quoting.next c := by
  obtain ⟨first, others, encoded, isFirst, othersWide⟩ := Text.Utf8.exists_encodeChar wide
  have firstWide : 0x80 ≤ first.toNat := by omega
  obtain ⟨_, noMark, noBackslash, _⟩ := plain_of_wide firstWide
  have differs (d : Char) (narrow : d.toNat < 128) : c ≠ d := by
    rintro rfl
    omega
  refine ⟨first, others, encoded, List.forall_mem_cons.mpr ⟨firstWide, othersWide⟩, ?_⟩
  intro quoting
  have mark := differs '"' (by decide)
  have backslash := differs '\\' (by decide)
  cases quoting <;> simp [Quoting.nextByte, Quoting.next, noMark, noBackslash, mark, backslash]

namespace ByteState.Mirrors

theorem push {byte : UInt8} (mirrors : bytes.Mirrors state)
    (same : ∀ quoting : Quoting, quoting.nextByte byte = quoting.next c) :
    (bytes.push index byte).Mirrors (state.push (index + 1) c) := by
  obtain ⟨start, column, quoting⟩ := bytes
  obtain ⟨isStart, isColumn, isQuoting⟩ := mirrors
  dsimp only at isStart isColumn isQuoting
  subst isQuoting
  have opens := state.start?_push (index + 1) c
  have becomes := state.quoting_push (index + 1) c
  cases start with
  | none =>
    -- Where no token is open, the state is between tokens.
    have between : state = .between := by
      cases state <;> first | rfl | cases isStart
    subst between
    refine ⟨by rw [opens]; rfl, ?_, by rw [becomes, ← same]; rfl⟩
    intro start isOpen
    rw [opens] at isOpen
    exact Option.some.inj isOpen
  | some first =>
    have stays : state.start? = some (first + 1) := isStart.symm
    refine ⟨?_, ?_, ?_⟩
    · rw [opens, stays]
      rfl
    · intro start isOpen
      rw [opens, stays] at isOpen
      rw [stays] at isColumn
      exact isColumn start isOpen
    · rw [becomes, ← same]
      rfl

theorem opened (mirrors : bytes.Mirrors state) {first : Nat} (isStart : bytes.start = some first) :
    state.start? = some (first + 1) := by
  rw [← mirrors.start, isStart, Option.map_some]

theorem closed (mirrors : bytes.Mirrors state) (isStart : bytes.start = none) :
    state.start? = none := by
  rw [← mirrors.start, isStart, Option.map_none]

/-- The open token is the slice from where it started up to the index. -/
theorem slice (mirrors : bytes.Mirrors state)
    (agrees : state.Agrees (1 + byteCount front) (index + 1)) {first : Nat}
    (isStart : bytes.start = some first) (text : List Char) :
    Text.Utf8.slice? ((front ++ state.text ++ text).flatMap String.utf8EncodeChar) first index =
      some state.text := by
  have opened := mirrors.opened isStart
  have behindFront := agrees.start _ opened
  have here := agrees.column
  have firstIs : first = byteCount front := by omega
  have indexIs : index = byteCount (front ++ state.text) := by
    rw [byteCount_append]
    omega
  rw [firstIs, indexIs]
  exact Text.Utf8.slice?_part front state.text text

theorem cut (mirrors : bytes.Mirrors state)
    (agrees : state.Agrees (1 + byteCount front) (index + 1))
    (isOutside : state.quoting = .outside) (text : List Char) :
    bytes.cut ((front ++ state.text ++ text).flatMap String.utf8EncodeChar) index =
      some state.parted := by
  rw [ByteState.cut]
  cases isStart : bytes.start with
  | none =>
    have closed := mirrors.closed isStart
    cases state with
    | between => rfl
    | word | quoted => cases closed
  | some first =>
    have opened := mirrors.opened isStart
    have column := mirrors.column _ opened
    dsimp only
    rw [mirrors.slice agrees isStart]
    cases state with
    | between => cases opened
    | word start reversed =>
      obtain rfl := Option.some.inj opened
      rw [column]
      rfl
    | quoted => exact absurd isOutside (LineState.quoting_quoted _ _ _)

/-- At the end of the line both find the last token, or the column where quotes were opened. -/
theorem finish (mirrors : bytes.Mirrors state)
    (agrees : state.Agrees (1 + byteCount front) (index + 1)) (text : List Char) :
    bytes.finish ((front ++ state.text ++ text).flatMap String.utf8EncodeChar) index =
      some (tokensFrom (index + 1) state []) := by
  rw [ByteState.finish, mirrors.quoting]
  cases isStart : bytes.start with
  | none =>
    have closed := mirrors.closed isStart
    cases state with
    | between => rfl
    | word | quoted => cases closed
  | some first =>
    have opened := mirrors.opened isStart
    have column := mirrors.column _ opened
    dsimp only
    rw [mirrors.slice agrees isStart, column]
    cases state with
    | between => cases opened
    | word start reversed =>
      obtain rfl := Option.some.inj opened
      rfl
    | quoted start reversed escaped =>
      obtain rfl := Option.some.inj opened
      rw [if_neg (LineState.quoting_quoted _ _ _)]
      rfl

end ByteState.Mirrors

/-- The bytes of a character that goes on with the token are scanned one after the other. -/
theorem scanBytes_push {line rest : List UInt8} (mirrors : bytes.Mirrors state)
    (goesOn : state.quoting = .outside → c ≠ '#' ∧ isSeparator c = false) :
    ∃ pushed : ByteState, pushed.Mirrors (state.push (index + 1) c) ∧
      scanBytes line index bytes (String.utf8EncodeChar c ++ rest) =
        scanBytes line (index + c.utf8Size) pushed rest := by
  rw [← String.length_utf8EncodeChar c]
  by_cases ascii : c.toNat < 128
  · obtain ⟨byte, encoded, isSign, separates, same⟩ := exists_byte ascii
    refine ⟨_, mirrors.push same, ?_⟩
    have noComment : ¬ (bytes.quoting = .outside ∧ byte = 0x23) := by
      rintro ⟨isOutside, starts⟩
      exact (goesOn (mirrors.quoting ▸ isOutside)).1 (isSign.mp starts)
    have noSeparator : ¬ (bytes.quoting = .outside ∧ isSeparatorByte byte) := by
      rintro ⟨isOutside, parts⟩
      rw [separates, (goesOn (mirrors.quoting ▸ isOutside)).2] at parts
      cases parts
    rw [encoded, List.singleton_append, scanBytes, if_neg noComment, if_neg noSeparator]
    rfl
  · obtain ⟨first, others, encoded, wide, same⟩ := exists_wide (Nat.le_of_not_lt ascii)
    obtain ⟨firstWide, othersWide⟩ := List.forall_mem_cons.mp wide
    refine ⟨_, mirrors.push same, ?_⟩
    rw [encoded, List.cons_append, scanBytes_wide firstWide,
      scanBytes_settled othersWide (ByteState.settled_push firstWide), List.length_cons,
      Nat.add_assoc, Nat.add_comm 1]

/-- A separator is one byte. -/
theorem ascii_of_isSeparator (separates : isSeparator c = true) : c.toNat < 128 := by
  simp only [isSeparator, Bool.or_eq_true, decide_eq_true_eq] at separates
  rcases separates with (rfl | rfl) | rfl <;> decide

/-- The byte of a separator completes the token that is open. -/
theorem scanBytes_parted {text : List Char} {rest : List UInt8} (mirrors : bytes.Mirrors state)
    (agrees : state.Agrees (1 + byteCount front) (index + 1))
    (isOutside : state.quoting = .outside) (separates : isSeparator c = true) :
    scanBytes ((front ++ state.text ++ text).flatMap String.utf8EncodeChar) index bytes
        (String.utf8EncodeChar c ++ rest) =
      (scanBytes ((front ++ state.text ++ text).flatMap String.utf8EncodeChar)
        (index + c.utf8Size) { bytes with start := none } rest).map
          ((state.parted ++ ·) <$> ·) := by
  obtain ⟨byte, encoded, isSign, sameSeparator, _⟩ := exists_byte (ascii_of_isSeparator separates)
  have here : bytes.quoting = .outside := mirrors.quoting.trans isOutside
  have noComment : ¬ (bytes.quoting = .outside ∧ byte = 0x23) := by
    rintro ⟨_, starts⟩
    exact ne_comment_of_isSeparator separates (isSign.mp starts)
  have one : c.utf8Size = 1 := by
    rw [← String.length_utf8EncodeChar, encoded, List.length_singleton]
  rw [encoded, List.singleton_append, scanBytes, if_neg noComment,
    if_pos ⟨here, sameSeparator.trans separates⟩, mirrors.cut agrees isOutside, one]
  exact Option.map_eq_bind.symm

/-- From any state on, the bytes of a text have the tokens that its characters have. -/
theorem scanBytes_flatMap (text : List Char) (mirrors : bytes.Mirrors state)
    (agrees : state.Agrees (1 + byteCount front) (index + 1)) :
    scanBytes ((front ++ state.text ++ text).flatMap String.utf8EncodeChar) index bytes
      (text.flatMap String.utf8EncodeChar) = some (tokensFrom (index + 1) state text) := by
  induction text generalizing front state bytes index with
  | nil => exact mirrors.finish agrees []
  | cons c rest inductionHypothesis =>
    rw [List.flatMap_cons]
    rcases state.char_cases c with ⟨isOutside, rfl⟩ | ⟨isOutside, separates⟩ | goesOn
    · have sign : String.utf8EncodeChar '#' = [0x23] := rfl
      rw [sign, List.singleton_append, scanBytes, if_pos ⟨mirrors.quoting.trans isOutside, rfl⟩,
        mirrors.finish agrees, tokensFrom_nil isOutside, tokensFrom_numberSign isOutside]
    · have parted : ByteState.Mirrors { bytes with start := none } .between :=
        ⟨rfl, by simp [LineState.start?], mirrors.quoting.trans isOutside⟩
      have agreesParted := agrees.parted c
      rw [Nat.add_right_comm] at agreesParted
      have others := inductionHypothesis parted agreesParted
      have text : front ++ state.text ++ [c] ++ LineState.between.text ++ rest =
          front ++ state.text ++ c :: rest := by simp [LineState.text]
      rw [text] at others
      rw [scanBytes_parted mirrors agrees isOutside separates, others, Option.map_some,
        tokensFrom_parted isOutside separates, Nat.add_right_comm]
    · obtain ⟨pushed, mirrorsPushed, scanned⟩ := scanBytes_push mirrors goesOn
      have agreesPushed := agrees.push goesOn
      rw [Nat.add_right_comm] at agreesPushed
      have others := inductionHypothesis mirrorsPushed agreesPushed
      rw [(state.text_push (index + 1) c).1] at others
      have text : front ++ (state.text ++ [c]) ++ rest = front ++ state.text ++ c :: rest := by
        simp
      rw [text] at others
      rw [scanned, others, tokensFrom_push goesOn, Nat.add_right_comm]

/-- The bytes of a line have the tokens of the line: no cut is inside of a character. -/
theorem scanBytes_eq (line : List Char) :
    scanBytes (line.flatMap String.utf8EncodeChar) 0 ⟨none, 0, .outside⟩
      (line.flatMap String.utf8EncodeChar) = some (tokens line) := by
  have closed : ByteState.Mirrors ⟨none, 0, .outside⟩ .between :=
    ⟨rfl, by simp [LineState.start?], rfl⟩
  have agrees : LineState.between.Agrees (1 + byteCount []) (0 + 1) := LineState.agrees_between 1
  exact scanBytes_flatMap line closed agrees

end Characters

end Listing

end CompiledCode
