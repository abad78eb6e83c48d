import CompiledCode.Code.Decode

/-!
Words as a stream of instructions. The words of an instruction are read back whatever follows them,
and no two instructions start alike, so words are instructions in at most one way.
-/

namespace CompiledCode

/-- Three opcodes end the flow of control. -/
theorem Opcode.endsFlow_iff (opcode : Opcode) :
    opcode.endsFlow = true ↔ opcode ∈ [.ret, .halt, .raiseExc] := by
  cases opcode <;> decide

theorem Opcode.id_eq_zero_iff (opcode : Opcode) : opcode.id = 0 ↔ opcode = .noop := by
  cases opcode <;> decide

/-- Every opcode stands at the position of its id. -/
theorem Opcode.ofId?_eq_some {word : UInt64} {opcode : Opcode} (known : ofId? word = some opcode) :
    opcode.id = word := by
  have atPosition : ∀ position (inside : position < all.length),
      (all[position]).id.toNat = position := by decide
  obtain ⟨inside, isOpcode⟩ := List.getElem?_eq_some_iff.mp known
  have position := atPosition word.toNat inside
  rw [isOpcode] at position
  exact UInt64.toNat_inj.mp position

namespace Instruction

/-- The table and the instruction agree on the number of operands. -/
def IsWellFormed (instruction : Instruction) : Prop :=
  instruction.operands.length = instruction.opcode.operandCount

instance (instruction : Instruction) : Decidable instruction.IsWellFormed :=
  inferInstanceAs (Decidable (_ = _))

/-- The padding instruction. -/
def idle : Instruction := ⟨.noop, []⟩

/-- The words of the instructions one after another. -/
def stream (instructions : List Instruction) : List UInt64 := instructions.flatMap words

theorem stream_cons (first : Instruction) (rest : List Instruction) :
    stream (first :: rest) = first.words ++ stream rest := rfl

theorem stream_append (before after : List Instruction) :
    stream (before ++ after) = stream before ++ stream after := List.flatMap_append

theorem stream_replicate_idle (count : Nat) :
    stream (List.replicate count idle) = List.replicate count 0 := by
  induction count with
  | zero => rfl
  | succ count inductionHypothesis =>
    rw [List.replicate_succ, stream_cons, inductionHypothesis, List.replicate_succ]
    rfl

/-- Only padding instructions have no other words than zero. -/
theorem words_eq_zero_iff {instruction : Instruction} (wellFormed : instruction.IsWellFormed) :
    (∀ word ∈ instruction.words, word = 0) ↔ instruction.opcode = .noop := by
  rw [words, List.forall_mem_cons, Opcode.id_eq_zero_iff]
  constructor
  · exact fun zeros => zeros.1
  · intro isNoop
    rw [IsWellFormed, isNoop] at wellFormed
    rw [List.length_eq_zero_iff.mp wellFormed]
    exact ⟨isNoop, List.forall_mem_nil _⟩

theorem stream_eq_zero_iff {instructions : List Instruction}
    (wellFormed : ∀ instruction ∈ instructions, instruction.IsWellFormed) :
    (∀ word ∈ stream instructions, word = 0) ↔
      ∀ instruction ∈ instructions, instruction.opcode = .noop := by
  induction instructions with
  | nil => simp [stream]
  | cons first rest inductionHypothesis =>
    obtain ⟨firstFits, restFits⟩ := List.forall_mem_cons.mp wellFormed
    rw [stream_cons, List.forall_mem_append, List.forall_mem_cons, words_eq_zero_iff firstFits,
      inductionHypothesis restFits]

section Reading

variable {offset : Nat} {word : UInt64} {rest : List UInt64} {instruction : Instruction}

/-- The words of an instruction are read back whatever follows them. -/
theorem read_words (wellFormed : instruction.IsWellFormed) (offset : Nat) (rest : List UInt64) :
    read offset instruction.opcode.id (instruction.operands ++ rest) = .ok instruction := by
  rw [read, Opcode.ofId?_id]
  dsimp only
  rw [← wellFormed, List.take_left, if_pos rfl]

/-- What is read is well-formed and its words are the ones that were read. -/
theorem of_read_ok (success : read offset word rest = .ok instruction) :
    instruction.IsWellFormed ∧
      word :: rest = instruction.words ++ rest.drop instruction.operands.length := by
  unfold read at success
  cases known : Opcode.ofId? word with
  | none =>
    rw [known] at success
    cases success
  | some opcode =>
    rw [known] at success
    dsimp only at success
    split at success
    · rename_i complete
      cases success
      refine ⟨complete, ?_⟩
      rw [words, List.cons_append, Opcode.ofId?_eq_some known, complete, List.take_append_drop]
    · cases success

end Reading

/-- The words start with no opcode, or the operands of their opcode are cut off. -/
def Unreadable : List UInt64 → Prop
  | [] => False
  | word :: rest =>
    Opcode.ofId? word = none ∨
      ∃ opcode, Opcode.ofId? word = some opcode ∧ rest.length < opcode.operandCount

/-- A read fails only on words that are unreadable, and its failure names the offset. -/
theorem of_read_error {offset : Nat} {word : UInt64} {rest : List UInt64} {cause : CodeError}
    (failed : read offset word rest = .error cause) :
    Unreadable (word :: rest) ∧ ∃ fault, cause = .undecodable offset fault := by
  unfold read at failed
  cases known : Opcode.ofId? word with
  | none =>
    rw [known] at failed
    cases failed
    exact ⟨.inl known, _, rfl⟩
  | some opcode =>
    rw [known] at failed
    dsimp only at failed
    split at failed
    · cases failed
    · rename_i incomplete
      cases failed
      rw [List.length_take] at incomplete
      exact ⟨.inr ⟨opcode, known, by omega⟩, _, rfl⟩

/-- The words of an instruction are readable. -/
theorem not_unreadable_words {instruction : Instruction} (wellFormed : instruction.IsWellFormed)
    (rest : List UInt64) : ¬ Unreadable (instruction.words ++ rest) := by
  rintro (unknown | ⟨opcode, known, short⟩)
  · rw [Opcode.ofId?_id] at unknown
    cases unknown
  · rw [Opcode.ofId?_id] at known
    cases known
    change (instruction.operands ++ rest).length < instruction.opcode.operandCount at short
    rw [List.length_append, ← wellFormed] at short
    omega

theorem read_of_unreadable {word : UInt64} {rest : List UInt64}
    (unreadable : Unreadable (word :: rest)) (offset : Nat) :
    ∃ cause, read offset word rest = .error cause := by
  cases result : read offset word rest with
  | error cause => exact ⟨cause, rfl⟩
  | ok instruction =>
    obtain ⟨wellFormed, parts⟩ := of_read_ok result
    rw [parts] at unreadable
    exact absurd unreadable (not_unreadable_words wellFormed _)

/-- The first instruction of a stream and the words after it are determined. -/
theorem words_append_inj {first second : Instruction} (firstFits : first.IsWellFormed)
    (secondFits : second.IsWellFormed) {firstRest secondRest : List UInt64}
    (same : first.words ++ firstRest = second.words ++ secondRest) :
    first = second ∧ firstRest = secondRest := by
  rw [words, words, List.cons_append, List.cons_append] at same
  obtain ⟨sameId, sameTail⟩ := List.cons.inj same
  have firstRead := read_words firstFits 0 firstRest
  rw [sameId, sameTail, read_words secondFits] at firstRead
  cases firstRead
  exact ⟨rfl, List.append_cancel_left sameTail⟩

/--
Words are read one instruction after another until none are left or no instruction can be read.
-/
@[elab_as_elim]
theorem streamInduction {motive : List UInt64 → Prop} (nil : motive [])
    (stuck : ∀ rest, Unreadable rest → motive rest)
    (step : ∀ (first : Instruction) (rest : List UInt64), first.IsWellFormed → motive rest →
      motive (first.words ++ rest))
    (block : List UInt64) : motive block := by
  match block with
  | [] => exact nil
  | word :: rest =>
    cases result : read 0 word rest with
    | error cause => exact stuck _ (of_read_error result).1
    | ok first =>
      obtain ⟨wellFormed, parts⟩ := of_read_ok result
      rw [parts]
      exact step first _ wellFormed (streamInduction nil stuck step _)
termination_by block.length
decreasing_by
  simp only [List.length_drop, List.length_cons]
  omega

end Instruction

end CompiledCode
