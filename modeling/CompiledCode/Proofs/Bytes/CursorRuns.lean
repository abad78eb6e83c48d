import CompiledCode.Proofs.Bytes.Delimiting
import CompiledCode.Proofs.Bytes.Movement
import CompiledCode.Proofs.Bytes.VarintMinimality

/-!
A cursor under readings of every kind, one after another and whatever comes of them. It stays within
the buffer and never goes back. A reading that succeeds answers what it has passed over. One that
fails has stayed where it was, or it is a number and has passed only what it has examined.
-/

namespace CompiledCode

namespace Varint

/-- A word that ends behind some bytes, answered or not, fails where the last are missing. -/
theorem wordFrom_cut {start index value offset : Nat} {short missing rest : List UInt8}
    (stop : (Read.leaves (wordFrom start index value offset (short ++ missing ++ rest))).offset =
      offset + (short ++ missing).length) (lacking : missing ≠ []) :
    wordFrom start index value offset short =
      .error (.unexpectedEnd (offset + short.length)) ⟨offset + short.length, []⟩ := by
  induction short generalizing index value offset with
  | nil => rfl
  | cons byte short inductionHypothesis =>
    have another := List.length_pos_iff.mpr lacking
    rw [List.cons_append, List.cons_append, wordFrom, List.length_cons, List.length_append] at stop
    rw [wordFrom, List.length_cons]
    dsimp only at stop ⊢
    split at stop
    · dsimp only [Read.leaves] at stop
      omega
    · rename_i inRange
      split at stop
      · dsimp only [Read.leaves] at stop
        omega
      · rename_i goesOn
        rw [if_neg inRange, if_neg goesOn, inductionHypothesis, Nat.add_right_comm, Nat.add_assoc]
        rw [stop, List.length_append]
        omega

theorem naturalFrom_cut {index value offset : Nat} {short missing rest : List UInt8}
    (stop : (Read.leaves (naturalFrom index value offset (short ++ missing ++ rest))).offset =
      offset + (short ++ missing).length) (lacking : missing ≠ []) :
    naturalFrom index value offset short =
      .error (.unexpectedEnd (offset + short.length)) ⟨offset + short.length, []⟩ := by
  induction short generalizing index value offset with
  | nil => rfl
  | cons byte short inductionHypothesis =>
    have another := List.length_pos_iff.mpr lacking
    rw [List.cons_append, List.cons_append, naturalFrom, List.length_cons, List.length_append]
      at stop
    rw [naturalFrom, List.length_cons]
    split at stop
    · dsimp only [Read.leaves] at stop
      omega
    · rename_i goesOn
      rw [if_neg goesOn, inductionHypothesis, Nat.add_right_comm, Nat.add_assoc]
      rw [stop, List.length_append]
      omega

end Varint

namespace Cursor

open Varint

/-- The readings that move a cursor. -/
inductive Operation where
  | byte
  | word
  | natural
  | count
  | bytes (size : Nat)
  | line
  deriving DecidableEq, Repr

/-- What such a reading answers. -/
inductive Answer where
  | byte (value : UInt8)
  | word (value : UInt64)
  | number (value : Nat)
  | bytes (value : List UInt8)
  deriving DecidableEq, Repr

def Operation.read : Operation → Read Answer
  | byte => Answer.byte <$> Read.byte
  | word => Answer.word <$> Varint.word
  | natural => Answer.number <$> Varint.natural
  | count => Answer.number <$> Varint.count
  | bytes size => Answer.bytes <$> Read.bytes size
  | line => Answer.bytes <$> Read.line

/-- A number is read byte by byte, and every other reading is done as a whole. -/
def Operation.isNumber : Operation → Bool
  | word | natural | count => true
  | byte | bytes _ | line => false

/-- The cursor behind readings one after another, each from where the one before has left it. -/
def after (cursor : Cursor) (operations : List Operation) : Cursor :=
  operations.foldl (fun cursor operation => Read.leaves (operation.read cursor)) cursor

/-- What a successful reading passes over, what it leaves behind that, and its answer. -/
inductive Operation.Passes : Operation → List UInt8 → List UInt8 → Answer → Prop where
  | byte (value : UInt8) (rest : List UInt8) : Passes .byte [value] rest (.byte value)
  | word {front rest : List UInt8} {value : UInt64} (isFront : varint? (front ++ rest) = some front)
    (spells : value.toNat = groupsValue front) : Passes .word front rest (.word value)
  | natural {front rest : List UInt8} (isFront : varint? (front ++ rest) = some front) :
    Passes .natural front rest (.number (groupsValue front))
  | count {front rest : List UInt8} (isFront : varint? (front ++ rest) = some front)
    (fits : groupsValue front < 2 ^ 64) : Passes .count front rest (.number (groupsValue front))
  | bytes (data rest : List UInt8) : Passes (.bytes data.length) data rest (.bytes data)
  | line {text : List UInt8} (noFeed : 10 ∉ text) (rest : List UInt8) :
    Passes .line (text ++ [10]) rest (.bytes text)

/--
The reading examines the byte at an offset: where the buffer ends in front of that byte, it gets so
far and fails for want of it.
-/
def Operation.Examines (operation : Operation) (buffer : List UInt8) (start index : Nat) : Prop :=
  operation.read (.startingAt (buffer.take index) start) =
    .error (.unexpectedEnd index) (.startingAt (buffer.take index) index)

section Operations

variable {operation : Operation} {cursor next : Cursor} {answer : Answer} {failure : ReadError}

theorem Operation.read_movesForward (operation : Operation) : operation.read.MovesForward := by
  cases operation with
  | byte => exact Read.map_movesForward _ Read.byte_movesForward
  | word => exact Read.map_movesForward _ word_movesForward
  | natural => exact Read.map_movesForward _ natural_movesForward
  | count => exact Read.map_movesForward _ (Read.map_movesForward _ word_movesForward)
  | bytes size => exact Read.map_movesForward _ (Read.bytes_movesForward size)
  | line => exact Read.map_movesForward _ Read.line_movesForward

/-- A number that is read is the varint at the front. -/
theorem front_of_natural_ok {number : Nat} (success : natural cursor = .ok number next) :
    ∃ front, cursor.rest = front ++ next.rest ∧ next.offset = cursor.offset + front.length ∧
      varint? (front ++ next.rest) = some front ∧ number = groupsValue front := by
  obtain ⟨front, restEq, offsetEq⟩ := natural_movesForward.of_ok success
  refine ⟨front, restEq, offsetEq, ?_⟩
  obtain ⟨start, bytes⟩ := cursor
  obtain ⟨stop, rest⟩ := next
  dsimp only at restEq offsetEq
  subst restEq offsetEq
  exact of_natural_ok success

theorem Operation.passes_of_ok (success : operation.read cursor = .ok answer next) :
    ∃ passed, cursor.rest = passed ++ next.rest ∧ next.offset = cursor.offset + passed.length ∧
      operation.Passes passed next.rest answer := by
  cases operation with
  | byte =>
    obtain ⟨value, isByte, rfl⟩ := Read.map_eq_ok.mp success
    obtain ⟨start, bytes⟩ := cursor
    cases bytes with
    | nil => cases isByte
    | cons letter rest =>
      cases isByte
      exact ⟨[value], rfl, rfl, .byte value rest⟩
  | word =>
    obtain ⟨value, isWord, rfl⟩ := Read.map_eq_ok.mp success
    obtain ⟨front, restEq, offsetEq, isFront, spells⟩ :=
      front_of_natural_ok (natural_of_word_ok isWord)
    exact ⟨front, restEq, offsetEq, .word isFront spells⟩
  | natural =>
    obtain ⟨value, isNatural, rfl⟩ := Read.map_eq_ok.mp success
    obtain ⟨front, restEq, offsetEq, isFront, rfl⟩ := front_of_natural_ok isNatural
    exact ⟨front, restEq, offsetEq, .natural isFront⟩
  | count =>
    obtain ⟨value, isCount, rfl⟩ := Read.map_eq_ok.mp success
    obtain ⟨value, isWord, rfl⟩ := Read.map_eq_ok.mp isCount
    obtain ⟨front, restEq, offsetEq, isFront, spells⟩ :=
      front_of_natural_ok (natural_of_word_ok isWord)
    rw [spells]
    exact ⟨front, restEq, offsetEq, .count isFront (spells ▸ value.toNat_lt)⟩
  | bytes size =>
    obtain ⟨data, isData, rfl⟩ := Read.map_eq_ok.mp success
    unfold Read.bytes at isData
    split at isData
    · rename_i enough
      cases isData
      have length : (cursor.rest.take size).length = size := List.length_take_of_le enough
      refine ⟨cursor.rest.take size, (List.take_append_drop size _).symm, ?_, ?_⟩
      · rw [length]
      · have passes := Passes.bytes (cursor.rest.take size) (cursor.rest.drop size)
        rwa [length] at passes
    · cases isData
  | line =>
    obtain ⟨text, isText, rfl⟩ := Read.map_eq_ok.mp success
    obtain ⟨passed, restEq, offsetEq⟩ := Read.line_movesForward.of_ok isText
    obtain ⟨parts, noFeed⟩ := Read.of_line_ok isText
    have same : passed = text ++ [10] := by
      rw [restEq, List.append_cons] at parts
      exact List.append_cancel_right parts
    subst same
    exact ⟨_, restEq, offsetEq, .line (fun feed => noFeed 10 feed rfl) _⟩

/-- A reading that is no number fails as a whole. -/
theorem Operation.stays_of_error (noNumber : operation.isNumber = false)
    (failed : operation.read cursor = .error failure next) : next = cursor := by
  cases operation with
  | word | natural | count => cases noNumber
  | byte =>
    have failedByte := Read.map_eq_error.mp failed
    unfold Read.byte at failedByte
    split at failedByte <;> cases failedByte
    rfl
  | bytes size =>
    have failedBytes := Read.map_eq_error.mp failed
    unfold Read.bytes at failedBytes
    split at failedBytes <;> cases failedBytes
    rfl
  | line =>
    have failedLine := Read.map_eq_error.mp failed
    unfold Read.line at failedLine
    dsimp only at failedLine
    split at failedLine <;> cases failedLine
    rfl

/-- A number that has ended behind some bytes fails at the end of the first of them. -/
theorem Operation.read_take (isNumber : operation.isNumber = true) {start index : Nat}
    {taken rest : List UInt8} (few : index < taken.length)
    (stop : (Read.leaves (operation.read ⟨start, taken ++ rest⟩)).offset = start + taken.length) :
    operation.read ⟨start, taken.take index⟩ =
      .error (.unexpectedEnd (start + index)) ⟨start + index, []⟩ := by
  have front := List.take_append_drop index taken
  have length := List.length_take_of_le few.le
  have lacking : taken.drop index ≠ [] := by
    rwa [Ne, List.drop_eq_nil_iff, Nat.not_le]
  rw [← front] at stop
  cases operation with
  | byte | bytes | line => cases isNumber
  | word =>
    rw [read, Read.leaves_map] at stop
    have failed := wordFrom_cut stop lacking
    rw [length] at failed
    exact Read.map_eq_error.mpr failed
  | natural =>
    rw [read, Read.leaves_map, natural_eq] at stop
    have failed := naturalFrom_cut stop lacking
    rw [length] at failed
    exact Read.map_eq_error.mpr ((natural_eq _).trans failed)
  | count =>
    rw [read, Read.leaves_map, Varint.count, Read.leaves_map] at stop
    have failed := wordFrom_cut stop lacking
    rw [length] at failed
    exact Read.map_eq_error.mpr (Read.map_eq_error.mpr failed)

end Operations

section Buffers

variable {buffer : List UInt8} {cursor : Cursor}

theorem reaches_after (cursor : Cursor) (operations : List Operation) :
    cursor.Reaches (cursor.after operations) := by
  induction operations generalizing cursor with
  | nil => exact .refl cursor
  | cons operation rest inductionHypothesis =>
    exact (operation.read_movesForward cursor).trans (inductionHypothesis _)

/-- A cursor that has moved forward through the buffer stands in it, in front of the rest. -/
theorem eq_startingAt (reaches : (ofBytes buffer).Reaches cursor) :
    cursor.offset ≤ buffer.length ∧ cursor = startingAt buffer cursor.offset := by
  obtain ⟨passed, parts, offsetEq⟩ := reaches
  have whole : buffer = passed ++ cursor.rest := parts
  have length : cursor.offset = passed.length := offsetEq.trans (Nat.zero_add _)
  constructor
  · rw [whole, length, List.length_append]
    exact Nat.le_add_right _ _
  · rw [startingAt, whole, length, List.drop_left, ← length]

/-- What a successful reading passes over stands in the buffer between the two offsets. -/
theorem Operation.passes_slice (reaches : (ofBytes buffer).Reaches cursor) {operation : Operation}
    {answer : Answer} {next : Cursor} (success : operation.read cursor = .ok answer next) :
    operation.Passes (buffer.extract cursor.offset next.offset) (buffer.drop next.offset)
      answer := by
  obtain ⟨passed, parts, stop, passes⟩ := operation.passes_of_ok success
  obtain ⟨_, isPlace⟩ := eq_startingAt reaches
  obtain ⟨_, isNext⟩ := eq_startingAt (reaches.trans ⟨passed, parts, stop⟩)
  have restEq : cursor.rest = buffer.drop cursor.offset := congrArg Cursor.rest isPlace
  have nextRest : next.rest = buffer.drop next.offset := congrArg Cursor.rest isNext
  have between : buffer.extract cursor.offset next.offset = passed := by
    rw [List.extract_eq_take_drop, ← restEq, parts, stop, Nat.add_sub_cancel_left, List.take_left]
  rwa [between, ← nextRest]

/-- A number passes only over bytes that it examines. -/
theorem Operation.examines (reaches : (ofBytes buffer).Reaches cursor) {operation : Operation}
    (isNumber : operation.isNumber = true) {index : Nat} (behind : cursor.offset ≤ index)
    (passed : index < (Read.leaves (operation.read cursor)).offset) :
    operation.Examines buffer cursor.offset index := by
  obtain ⟨_, isPlace⟩ := eq_startingAt reaches
  obtain ⟨taken, parts, stop⟩ := operation.read_movesForward cursor
  have few : index - cursor.offset < taken.length := by omega
  have place : cursor = ⟨cursor.offset, taken ++ (Read.leaves (operation.read cursor)).rest⟩ := by
    rw [← parts]
  rw [place] at stop
  have failed := Operation.read_take isNumber few stop
  -- The buffer is cut within the bytes that were passed.
  have cut : (buffer.take index).drop cursor.offset = taken.take (index - cursor.offset) := by
    have restEq : cursor.rest = buffer.drop cursor.offset := congrArg Cursor.rest isPlace
    rw [List.drop_take, ← restEq, parts, List.take_append_of_le_length few.le]
  rw [Examines, startingAt, startingAt, cut, failed, Nat.add_sub_cancel' behind,
    List.drop_take_self]

end Buffers

section Registers

/-- The sum of two words, unless it has more than 64 bits. -/
def checkedSum? (first second : UInt64) : Option UInt64 :=
  if first.toNat + second.toNat < 2 ^ 64 then some (first + second) else none

/-- So many bytes from an offset on, with the end in a register of 64 bits, and that end. -/
def window? (buffer : List UInt8) (offset size : UInt64) : Option (List UInt8 × UInt64) := do
  let stop ← checkedSum? offset size
  if stop.toNat ≤ buffer.length then some (buffer.extract offset.toNat stop.toNat, stop) else none

variable {buffer : List UInt8} {start : Nat}

theorem bytes_startingAt (inside : start ≤ buffer.length) (size : Nat) :
    Read.bytes size (.startingAt buffer start) =
      if start + size ≤ buffer.length then
        .ok ((buffer.drop start).take size) (.startingAt buffer (start + size))
      else .error (.unexpectedEnd (startingAt buffer start).limit) (.startingAt buffer start) := by
  have remaining : (buffer.drop start).length = buffer.length - start := List.length_drop
  rw [Read.bytes, startingAt]
  dsimp only
  by_cases enough : start + size ≤ buffer.length
  · rw [if_pos (by omega), if_pos enough, List.drop_drop]
    rfl
  · rw [if_neg (by omega), if_neg enough]

/-- A sum that does not fit is past the end of every buffer. -/
theorem window?_eq (fits : buffer.length < 2 ^ 64) (inside : start ≤ buffer.length)
    (size : UInt64) :
    window? buffer (.ofNat start) size =
      if start + size.toNat ≤ buffer.length then
        some ((buffer.drop start).take size.toNat, .ofNat (start + size.toNat))
      else none := by
  have offset : (UInt64.ofNat start).toNat = start := by
    rw [UInt64.toNat_ofNat', Nat.mod_eq_of_lt (by omega)]
  rw [window?, checkedSum?, offset]
  by_cases carries : start + size.toNat < 2 ^ 64
  · have sum : UInt64.ofNat start + size = .ofNat (start + size.toNat) := by
      rw [UInt64.ofNat_add, UInt64.ofNat_toNat]
    have stop : (UInt64.ofNat (start + size.toNat)).toNat = start + size.toNat := by
      rw [UInt64.toNat_ofNat', Nat.mod_eq_of_lt carries]
    rw [if_pos carries, Option.bind_eq_bind, Option.bind_some, sum, stop,
      List.extract_eq_take_drop, Nat.add_sub_cancel_left]
  · rw [if_neg carries, if_neg (by omega)]
    rfl

theorem window?_eq_some_iff (fits : buffer.length < 2 ^ 64) (inside : start ≤ buffer.length)
    (size stop : UInt64) (data : List UInt8) :
    window? buffer (.ofNat start) size = some (data, stop) ↔
      Read.bytes size.toNat (.startingAt buffer start) =
        .ok data (.startingAt buffer stop.toNat) := by
  rw [window?_eq fits inside, bytes_startingAt inside]
  by_cases enough : start + size.toNat ≤ buffer.length
  · have sum : (UInt64.ofNat (start + size.toNat)).toNat = start + size.toNat := by
      rw [UInt64.toNat_ofNat', Nat.mod_eq_of_lt (by omega)]
    rw [if_pos enough, if_pos enough]
    constructor
    · rintro ⟨⟩
      rw [sum]
    · intro same
      injection same with sameData sameStop
      have sameOffset : start + size.toNat = stop.toNat := congrArg Cursor.offset sameStop
      rw [sameData, UInt64.toNat_inj.mp (sum.trans sameOffset)]
  · simp [enough]

end Registers

/--
Whatever has been read before, the cursor stands in the buffer in front of the bytes that remain.
The next reading takes it neither back nor past the end. What a successful reading answers is what
stands between the two offsets. A failing one leaves the cursor where it was, or it is a number and
has examined every byte that it has passed. Where the length of the buffer is a word, so many bytes,
up to the largest word, are found by a sum of 64 bits exactly if they can be read.
-/
theorem readings_stay_within (buffer : List UInt8) (operations : List Operation) :
    let cursor := (ofBytes buffer).after operations
    cursor.offset ≤ buffer.length ∧ cursor.rest = buffer.drop cursor.offset ∧
    cursor.offset + cursor.remaining = buffer.length ∧
    (∀ operation : Operation,
      let next := Read.leaves (operation.read cursor)
      cursor.offset ≤ next.offset ∧ next.offset ≤ buffer.length ∧
      (∀ answer, operation.read cursor = .ok answer next →
        operation.Passes (buffer.extract cursor.offset next.offset) (buffer.drop next.offset)
          answer) ∧
      (∀ failure, operation.read cursor = .error failure next →
        (operation.isNumber = false → next = cursor) ∧
        ∀ index, cursor.offset ≤ index → index < next.offset →
          operation.Examines buffer cursor.offset index)) ∧
    (buffer.length < 2 ^ 64 → ∀ size data stop,
      window? buffer (.ofNat cursor.offset) size = some (data, stop) ↔
        Read.bytes size.toNat cursor = .ok data (.startingAt buffer stop.toNat)) := by
  intro cursor
  have reaches := reaches_after (ofBytes buffer) operations
  obtain ⟨inside, isPlace⟩ := eq_startingAt reaches
  have restEq : cursor.rest = buffer.drop cursor.offset := congrArg Cursor.rest isPlace
  refine ⟨inside, restEq, ?_, fun operation => ?_, fun fits size data stop => ?_⟩
  · rw [remaining, restEq, List.length_drop]
    exact Nat.add_sub_cancel' inside
  · intro next
    have moves := operation.read_movesForward cursor
    obtain ⟨nextInside, _⟩ := eq_startingAt (reaches.trans moves)
    refine ⟨moves.offset_le, nextInside, fun _ => operation.passes_slice reaches,
      fun failure failed => ⟨?_, ?_⟩⟩
    · intro noNumber
      exact operation.stays_of_error noNumber failed
    · intro index behind before
      cases isNumber : operation.isNumber with
      | true => exact operation.examines reaches isNumber behind before
      | false =>
        rw [operation.stays_of_error isNumber failed] at before
        exact absurd before (Nat.not_lt_of_le behind)
  · rw [show cursor = startingAt buffer cursor.offset from isPlace]
    exact window?_eq_some_iff fits inside size stop data

/-- A line, more bytes than any buffer has, a byte, and at last a number that has no end. -/
theorem readings_stay_within_unfinished :
    let buffer : List UInt8 := [33, 10, 5, 0x80, 0x80]
    let cursor := (ofBytes buffer).after [.line, .bytes (2 ^ 64 - 1), .byte]
    cursor = ⟨3, [0x80, 0x80]⟩ ∧
    Operation.word.read cursor = .error (.unexpectedEnd 5) ⟨5, []⟩ ∧
    Operation.word.Examines buffer 3 3 ∧ Operation.word.Examines buffer 3 4 ∧
    window? buffer 3 0xFFFFFFFFFFFFFFFF = none := by
  intro buffer cursor
  obtain ⟨_, _, _, next, window⟩ := readings_stay_within buffer
    [.line, .bytes (2 ^ 64 - 1), .byte]
  obtain ⟨_, each⟩ := (next .word).2.2.2 (.unexpectedEnd 5) rfl
  refine ⟨rfl, rfl, each 3 (by decide) (by decide), each 4 (by decide) (by decide), ?_⟩
  cases found : window? buffer 3 0xFFFFFFFFFFFFFFFF with
  | none => rfl
  | some part =>
    have impossible := (window (by decide) 0xFFFFFFFFFFFFFFFF part.1 part.2).mp found
    cases impossible

end Cursor

end CompiledCode
