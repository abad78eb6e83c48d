import Mathlib.Data.List.Forall2
import CompiledCode.Listing.Assembly
import CompiledCode.Proofs.Code.EncodingRoundTrip
import CompiledCode.Proofs.Listing.Rendering

/-!
A rendering is a listing of the code that it shows. Its offset column defines labels that no operand
refers to, because operands are numbers and numbers are tried first, so both passes of the assembler
meet nothing but the instructions in their order.
-/

namespace CompiledCode

open Instruction

/-- The table finds an instruction under its mnemonic. -/
theorem Opcode.ofMnemonic_mnemonic (opcode : Opcode) :
    ofMnemonic opcode.mnemonic = .ok opcode := by
  have table : ∀ opcode ∈ all, (all.find? fun other => other.mnemonic == opcode.mnemonic) =
      some opcode := by decide +kernel
  rw [ofMnemonic, table opcode opcode.mem_all]

theorem Instruction.width_eq {instruction : Instruction} (wellFormed : instruction.IsWellFormed) :
    instruction.opcode.width = instruction.width := by
  rw [Opcode.width, width, wellFormed]

namespace Listing

section Operands

variable (labels : Labels) (table : LiteralTable)

/-- A number is itself as an operand of any kind, whatever the labels are. -/
theorem operand_digits (kind : OperandKind) (value : UInt64) :
    operand labels table kind (Nat.toDigits 10 value.toNat) = .ok (value, table) := by
  have number : ∀ kind, numberOperand kind (Nat.toDigits 10 value.toNat) = .ok value := by
    intro kind
    rw [numberOperand, Text.word?_toDigits]
  cases kind with
  | ip =>
    rw [operand, jumpOperand, Text.word?_toDigits]
    rfl
  | literal =>
    rw [operand, literalOperand]
    · rw [number]
      rfl
    · exact fun body => Text.toDigits_ne_cons rfl body
    · exact fun first name => Text.toDigits_ne_cons rfl (first :: name)
  | _ =>
    rw [operand, number]
    · rfl
    all_goals simp

theorem operands_digits (line : Nat) {kinds : List OperandKind} {values : List UInt64}
    (count : values.length = kinds.length) {arguments : List Token}
    (texts : arguments.map Token.text = values.map fun value => Nat.toDigits 10 value.toNat) :
    operands labels line table (kinds.zip arguments) = .ok (values, table) := by
  induction values generalizing kinds arguments with
  | nil =>
    rw [List.length_eq_zero_iff.mp count.symm]
    rfl
  | cons value values inductionHypothesis =>
    obtain ⟨kind, kinds, rfl⟩ := List.exists_cons_of_length_eq_add_one count.symm
    obtain ⟨token, arguments, rfl, text, others⟩ := List.map_eq_cons_iff.mp texts
    rw [List.zip_cons_cons, operands, text, operand_digits]
    dsimp only
    rw [inductionHypothesis (by simpa using count) others]
    rfl

/-- A statement shows an instruction: the same opcode, and the operands as numbers. -/
def Statement.Shows (statement : Statement) (instruction : Instruction) : Prop :=
  statement.opcode = instruction.opcode ∧
    statement.arguments.map Token.text = instruction.operandTexts

/-- A statement that shows an instruction is read as this instruction, and no literal is added. -/
theorem Statement.instruction_of_shows {statement : Statement} {instruction : Instruction}
    (wellFormed : instruction.IsWellFormed) (shows : statement.Shows instruction) :
    statement.instruction labels table = .ok (instruction, table) := by
  obtain ⟨sameOpcode, texts⟩ := shows
  have count : statement.arguments.length = instruction.opcode.operandKinds.length := by
    have lengths := congrArg List.length texts
    rwa [List.length_map, operandTexts, List.length_map, wellFormed] at lengths
  rw [Statement.instruction, sameOpcode]
  dsimp only
  rw [if_pos count, operands_digits labels table statement.line wellFormed texts]
  rfl

/-- The second pass gives the instructions that the statements show. -/
theorem instructions_of_shows {statements : List Statement} {shown : List Instruction}
    (shows : List.Forall₂ Statement.Shows statements shown)
    (wellFormed : ∀ instruction ∈ shown, instruction.IsWellFormed) :
    instructions labels table statements = .ok (shown, table) := by
  induction shows with
  | nil => rfl
  | cons first _ inductionHypothesis =>
    obtain ⟨firstFits, restFits⟩ := List.forall_mem_cons.mp wellFormed
    rw [instructions, Statement.instruction_of_shows labels table firstFits first]
    change (instructions labels table _ >>= _) = _
    rw [inductionHypothesis restFits]
    rfl

end Operands

section Outline

/-- A mnemonic and the tokens behind it add a statement. -/
theorem Outline.add_mnemonic (outline : Outline) (line : Nat) {head : Token} {opcode : Opcode}
    (isMnemonic : head.text = opcode.mnemonic.toList) (arguments : List Token) :
    outline.add line (head :: arguments) = .ok ⟨outline.offset + opcode.width, outline.labels,
      ⟨line, head, opcode, arguments⟩ :: outline.reversed⟩ := by
  rw [add, isMnemonic, String.ofList_toList, Opcode.ofMnemonic_mnemonic]

/-- A line with a new label and an instruction adds both. -/
theorem Outline.addLine_ok (outline : Outline) (line : Nat) {text label : List Char}
    {instruction : Instruction} {found : List Token} (isFound : tokens text = .ok found)
    (texts : found.map Token.text = (label ++ [':']) :: instruction.wordTexts)
    (filled : label ≠ []) (noColon : ':' ∉ label)
    (fresh : String.ofList label ∉ outline.labels.map (·.1)) :
    ∃ statement : Statement, statement.Shows instruction ∧
      outline.addLine line text = .ok ⟨outline.offset + instruction.opcode.width,
        outline.labels ++ [(String.ofList label, outline.offset)],
        statement :: outline.reversed⟩ := by
  obtain ⟨definition, words, rfl, isDefinition, rest⟩ := List.map_eq_cons_iff.mp texts
  obtain ⟨head, arguments, rfl, isMnemonic, operandTexts⟩ := List.map_eq_cons_iff.mp rest
  have isLabel : definition.label? = some (String.ofList label) := by
    have noSymbol : (label ++ [':']).head? ≠ some ':' := by
      rw [List.head?_append_of_ne_nil _ filled]
      exact fun first => noColon (List.mem_of_head? first)
    rw [Token.label?, isDefinition, if_pos ⟨List.getLast?_concat, noSymbol⟩, List.dropLast_concat]
  have unknown : (outline.labels.lookup (String.ofList label)).isSome = false := by
    rw [Option.isSome_eq_false_iff, Option.isNone_iff_eq_none, List.lookup_eq_none_iff]
    intro pair member
    rw [bne_iff_ne]
    rintro same
    exact fresh (same ▸ List.mem_map_of_mem member)
  refine ⟨⟨line, head, instruction.opcode, arguments⟩, ⟨rfl, operandTexts⟩, ?_⟩
  rw [addLine, isFound]
  dsimp only
  rw [isLabel]
  dsimp only
  rw [define, unknown]
  exact Outline.add_mnemonic _ line isMnemonic arguments

variable (note : UInt64 → Option String) (jumps : List UInt64) (width : Nat)

/-- The label that the line of an entry defines. -/
def lineLabel (entry : Nat × Instruction) : String × Nat :=
  (String.ofList (Decoded.labelText jumps width entry.1), entry.1)

/-- A line of a rendering adds the instruction, and its label at the offset that it shows. -/
theorem addLine_shownLine (outline : Outline) (line : Nat) {first : Instruction}
    (wellFormed : first.IsWellFormed)
    (fresh : (lineLabel jumps width (outline.offset, first)).1 ∉ outline.labels.map (·.1)) :
    ∃ statement : Statement, statement.Shows first ∧
      outline.addLine line (Decoded.shownLine note jumps width (outline.offset, first)) =
        .ok ⟨outline.offset + first.width,
          outline.labels ++ [lineLabel jumps width (outline.offset, first)],
          statement :: outline.reversed⟩ := by
  obtain ⟨found, isFound, texts⟩ :=
    Decoded.tokens_shownLine note jumps width (outline.offset, first)
  rw [← width_eq wellFormed]
  exact outline.addLine_ok line isFound texts
    (Decoded.labelText_isBare jumps width outline.offset).filled
    (Decoded.not_mem_labelText jumps width outline.offset) fresh

/-- The first pass goes over the lines of instructions that start where it stands. -/
theorem foldlM_shownLines {shown : List Instruction}
    (wellFormed : ∀ instruction ∈ shown, instruction.IsWellFormed) (outline : Outline)
    (index : Nat)
    (fresh : ((outline.labels ++ (placed outline.offset shown).map (lineLabel jumps width)).map
      (·.1)).Nodup) :
    ∃ statements, List.Forall₂ Statement.Shows statements shown ∧
      (((placed outline.offset shown).map (Decoded.shownLine note jumps width)).zipIdx index).foldlM
        (fun outline (text, index) => outline.addLine (index + 1) text) outline =
        .ok ⟨outline.offset + (stream shown).length,
          outline.labels ++ (placed outline.offset shown).map (lineLabel jumps width),
          statements.reverse ++ outline.reversed⟩ := by
  -- That no name comes twice is one condition on the labels so far and those of the lines to come.
  induction shown generalizing outline index with
  | nil =>
    refine ⟨[], .nil, ?_⟩
    simp [placed, stream]
    rfl
  | cons first rest inductionHypothesis =>
    obtain ⟨firstFits, restFits⟩ := List.forall_mem_cons.mp wellFormed
    rw [placed, List.map_cons] at fresh ⊢
    have labelFresh : (lineLabel jumps width (outline.offset, first)).1 ∉
        outline.labels.map (·.1) := by
      rw [List.map_append, List.nodup_append] at fresh
      exact fun member => fresh.2.2 _ member _ List.mem_cons_self rfl
    obtain ⟨statement, shows, added⟩ :=
      addLine_shownLine note jumps width outline (index + 1) firstFits labelFresh
    obtain ⟨statements, othersShow, others⟩ := inductionHypothesis restFits
      ⟨outline.offset + first.width,
        outline.labels ++ [lineLabel jumps width (outline.offset, first)],
        statement :: outline.reversed⟩ (index + 1) (by rwa [List.append_assoc])
    refine ⟨statement :: statements, .cons shows othersShow, ?_⟩
    rw [List.zipIdx_cons, List.foldlM_cons]
    change (outline.addLine (index + 1) _ >>= _) = _
    rw [added]
    refine others.trans ?_
    simp [stream_cons, length_words, Nat.add_assoc]

/-- The names that the lines define are all different. -/
theorem lineLabel_nodup (shown : List Instruction) (start : Nat) :
    (((placed start shown).map (lineLabel jumps width)).map (·.1)).Nodup := by
  rw [List.map_map, List.nodup_iff_pairwise_ne, List.pairwise_map]
  refine (placed_increasing start shown).imp fun {first second} increases same => ?_
  have offsets : first.1 = second.1 := by
    rw [← Decoded.digitsValue_labelText jumps width first.1, String.ofList_injective same,
      Decoded.digitsValue_labelText]
  omega

end Outline

/-- Once both passes have succeeded, assembling a listing is encoding its instructions. -/
theorem assemble_of_passes {source : String} {outline : Outline} {shown : List Instruction}
    {literals : LiteralTable} (isOutline : outlineOf source = .ok outline)
    (areRead : instructions outline.labels [] outline.statements = .ok (shown, literals)) :
    assemble source = match CodeBlock.encode shown with
      | .error failure => .error (.unencodable failure)
      | .ok code => .ok ⟨shown, code, literals, outline.labels⟩ := by
  rw [assemble, isOutline]
  change instructions outline.labels [] outline.statements >>= _ = _
  rw [areRead]
  rfl

section Rendering

variable {note : UInt64 → Option String}
  (oneLine : ∀ index text, note index = some text → '\n' ∉ text.toList) {decoded : Decoded}
  (wellFormed : ∀ instruction ∈ decoded.instructions, instruction.IsWellFormed)
  (entries : decoded.entries = placed 0 decoded.instructions)

include oneLine wellFormed entries

/-- The first pass finds the label and the statement of each line. -/
theorem outlineOf_render :
    ∃ outline, outlineOf (decoded.render note) = .ok outline ∧
      outline.labels =
        decoded.entries.map (lineLabel decoded.branchTargets decoded.offsetWidth) ∧
      List.Forall₂ Statement.Shows outline.statements decoded.instructions := by
  have fresh := lineLabel_nodup decoded.branchTargets decoded.offsetWidth decoded.instructions 0
  obtain ⟨statements, shows, outlined⟩ := foldlM_shownLines note decoded.branchTargets
    decoded.offsetWidth wellFormed ⟨0, [], []⟩ 0 fresh
  dsimp only at outlined
  rw [← entries, ← Decoded.lines_render oneLine] at outlined
  exact ⟨_, outlined, rfl, by simpa [Outline.statements] using shows⟩

/-- Assembling a rendering is encoding the instructions that it shows. -/
theorem assemble_eq :
    assemble (decoded.render note) =
      match CodeBlock.encode decoded.instructions with
      | .error failure => .error (.unencodable failure)
      | .ok code => .ok ⟨decoded.instructions, code, [],
          decoded.entries.map (lineLabel decoded.branchTargets decoded.offsetWidth)⟩ := by
  obtain ⟨outline, outlined, labels, shows⟩ := outlineOf_render oneLine wellFormed entries
  have secondPass := instructions_of_shows outline.labels [] shows wellFormed
  rw [assemble_of_passes outlined secondPass, labels]

end Rendering

/--
The offset column of a line is the name of the label, with the mark when it has one, and the digits
in it are the offset that the label stands for.
-/
def PrintsLabel (line : List Char) (label : String × Nat) : Prop :=
  ∃ digits rest, Text.natural? digits = some label.2 ∧
    (line = ' ' :: (digits ++ ':' :: rest) ∧ label.1 = String.ofList digits ∨
      line = '>' :: (digits ++ ':' :: rest) ∧ label.1 = String.ofList ('>' :: digits))

theorem printsLabel_shownLine (note : UInt64 → Option String) (jumps : List UInt64) (width : Nat)
    (entry : Nat × Instruction) :
    PrintsLabel (Decoded.shownLine note jumps width entry) (lineLabel jumps width entry) := by
  obtain ⟨blanks, tail, parts, _⟩ := Decoded.shownLine_eq note jumps width entry
  refine ⟨Text.paddedDigits width entry.1, ' ' :: entry.2.text.toList ++ blanks ++ tail,
    Text.natural?_paddedDigits width entry.1, ?_⟩
  rw [parts, Decoded.lineStart, lineLabel, Decoded.labelText]
  split
  · right
    simp
  · left
    simp

/--
The rendering of a code block is a listing. When its instructions have an encoding, assembling it
gives these instructions, the words of the block without the padding, no literals, and for each line
the one label that the line prints. When they have none, assembling fails.
-/
theorem assemble_render {code : CodeBlock} {decoded : Decoded}
    (success : code.decode = .ok decoded) {note : UInt64 → Option String}
    (oneLine : ∀ index text, note index = some text → '\n' ∉ text.toList) :
    (∀ encoded, CodeBlock.encode decoded.instructions = .ok encoded →
      ∃ assembly, assemble (decoded.render note) = .ok assembly ∧
        assembly.instructions = decoded.instructions ∧ assembly.code = encoded ∧
        (∃ padding, code.words = assembly.code.words ++ padding ∧
          (padding = [] ∨ EndsFlow decoded.instructions ∧ IsPadding padding)) ∧
        assembly.literals = [] ∧
        (assembly.labels.map (·.1)).Nodup ∧
        assembly.labels.map (·.2) = decoded.entries.map (·.1) ∧
        List.Forall₂ PrintsLabel (Text.lines (decoded.render note).toList) assembly.labels) ∧
    (∀ failure, CodeBlock.encode decoded.instructions = .error failure →
      assemble (decoded.render note) = .error (.unencodable failure)) := by
  obtain ⟨⟨wellFormed, padding, parts, ending⟩, entries⟩ := CodeBlock.of_decode_ok success
  have assembled := assemble_eq oneLine wellFormed entries
  refine ⟨fun encoded isEncoded => ?_, fun failure failed => ?_⟩
  · rw [isEncoded] at assembled
    refine ⟨_, assembled, rfl, rfl, ⟨padding, ?_, ending⟩, rfl, ?_, ?_, ?_⟩
    · rw [parts, (CodeBlock.of_encode_ok isEncoded).2]
    · rw [entries]
      exact lineLabel_nodup _ _ decoded.instructions 0
    · rw [List.map_map]
      rfl
    · rw [Decoded.lines_render oneLine, List.forall₂_map_left_iff, List.forall₂_map_right_iff,
        List.forall₂_same]
      exact fun entry _ => printsLabel_shownLine _ _ _ entry
  · rw [assembled, failed]

/-- A jump target with a note and unreadable padding, and an array with too many items to encode. -/
theorem assemble_render_loop :
    let code : CodeBlock := ⟨[6, 0, 10, 0, 12, 999], 0⟩
    let tooLarge : CodeBlock := ⟨[20, 0x8000000000000000], 0⟩
    let note : UInt64 → Option String := fun index => if index = 0 then some "a # b" else none
    (∀ index text, note index = some text → '\n' ∉ text.toList) ∧
    (∃ decoded, code.decode = .ok decoded ∧
      decoded.render note = ">0000: push_literal 0  # a # b\n 0002: goto_if_true 0\n 0004: ret\n" ∧
      ∃ assembly, assemble (decoded.render note) = .ok assembly ∧
        assembly.code = ⟨[6, 0, 10, 0, 12], 1⟩ ∧ assembly.literals = [] ∧
        assembly.labels.map (·.2) = [0, 2, 4]) ∧
    ∃ decoded failure, tooLarge.decode = .ok decoded ∧
      assemble (decoded.render note) = .error (.unencodable failure) := by
  intro code tooLarge note
  have oneLine : ∀ index text, note index = some text → '\n' ∉ text.toList := by
    intro index text noted
    simp only [note] at noted
    split at noted
    · cases noted
      decide
    · cases noted
  refine ⟨oneLine, ?_, ?_⟩
  · have success : code.decode = .ok
        ⟨[(0, ⟨.pushLiteral, [0]⟩), (2, ⟨.gotoIfTrue, [0]⟩), (4, ⟨.ret, []⟩)],
          .unreadable 5 (.undecodable 5 (.invalidOpcode 999))⟩ := by cbv
    obtain ⟨assembly, assembled, _, sameCode, _, noLiterals, _, offsets, _⟩ :=
      (assemble_render success oneLine).1 ⟨[6, 0, 10, 0, 12], 1⟩ rfl
    exact ⟨_, success, by decide +kernel, assembly, assembled, sameCode, noLiterals, offsets⟩
  · have success : tooLarge.decode =
        .ok ⟨[(0, ⟨.makeArray, [0x8000000000000000]⟩)], .none⟩ := by cbv
    exact ⟨_, _, success, (assemble_render success oneLine).2 _ rfl⟩

end Listing

end CompiledCode
