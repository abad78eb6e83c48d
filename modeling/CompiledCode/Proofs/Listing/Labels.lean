import CompiledCode.Proofs.Code.Decoding
import CompiledCode.Proofs.Code.StackDepth
import CompiledCode.Proofs.Listing.Rows

/-!
The labels of a listing stand for word offsets of its code. The first pass counts the words of
instructions that it has not read yet, and these are the words that the encoding has, so that a jump
to a label goes to the instruction behind it.
-/

namespace CompiledCode

namespace Instruction

/-- An instruction stands where the words of those in front of it end. -/
theorem mem_placed (start : Nat) (before : List Instruction) (instruction : Instruction)
    (after : List Instruction) :
    (start + (before.map width).sum, instruction) ∈ placed start (before ++ instruction :: after) := by
  induction before generalizing start with
  | nil => simp [placed]
  | cons first rest inductionHypothesis =>
    have member := inductionHypothesis (start + first.width)
    rw [Nat.add_assoc] at member
    simp [placed, member]

end Instruction

namespace Listing

open Instruction

/-- A name that comes once in the labels is found with its offset. -/
theorem Labels.lookup_eq_some_iff {labels : Labels} (distinct : (labels.map (·.1)).Nodup)
    (label : String) (offset : Nat) :
    labels.lookup label = some offset ↔ (label, offset) ∈ labels := by
  induction labels with
  | nil => simp
  | cons first rest inductionHypothesis =>
    obtain ⟨name, place⟩ := first
    obtain ⟨fresh, others⟩ := List.nodup_cons.mp distinct
    by_cases same : label = name
    · subst same
      have absent : (label, offset) ∉ rest := by
        intro member
        exact fresh (List.mem_map.mpr ⟨_, member, rfl⟩)
      simp [absent, eq_comm]
    · have differs : (label == name) = false := by simpa using same
      simp [List.lookup_cons, differs, same, inductionHypothesis others]

/-- A jump goes to the number that the token is, and otherwise to the label that it names. -/
def JumpsTo (labels : Labels) (text : List Char) (value : UInt64) : Prop :=
  Text.word? text = some value ∨ Text.word? text = none ∧
    ∃ offset, labels.lookup (String.ofList text) = some offset ∧ value = .ofNat offset

theorem jumpsTo_of_isOperand {labels : Labels} {slot : OperandKind × Token} {value : UInt64}
    (isOperand : IsOperand labels slot value) (isJump : slot.1 = .ip) :
    JumpsTo labels slot.2.text value := by
  obtain ⟨table, next, success⟩ := isOperand
  rw [isJump, operand] at success
  obtain ⟨_, jumps, same⟩ := except_map_eq_ok.mp success
  cases same
  rw [jumpOperand] at jumps
  split at jumps
  · rename_i number isNumber
    cases jumps
    exact .inl isNumber
  · rename_i noNumber
    split at jumps
    · rename_i offset known
      cases jumps
      exact .inr ⟨noNumber, offset, known, rfl⟩
    · cases jumps

/--
The tokens name an instruction: first its mnemonic, and then its operands, of which the jumps go
where their tokens say. No tokens name none.
-/
inductive Names (labels : Labels) : List Token → Option Instruction → Prop where
  | nothing : Names labels [] none
  | instruction {head : Token} {arguments : List Token} {instruction : Instruction}
      (mnemonic : String.ofList head.text = instruction.mnemonic)
      (count : arguments.length = instruction.opcode.operandKinds.length)
      (jumps : List.Forall₂ (fun slot value => slot.1 = .ip → JumpsTo labels slot.2.text value)
        (instruction.opcode.operandKinds.zip arguments) instruction.operands) :
      Names labels (head :: arguments) (some instruction)

/-- The label and the instruction of a row are those of the line. -/
def IsShown (labels : Labels) (text : List Char) (row : Row Instruction) : Prop :=
  ∃ found, tokens text = .ok found ∧ row.label = definedLabel found ∧
    Names labels (instructionTokens found) row.content

section Rows

variable {labels : Labels}

/-- A row with the statement read as an instruction. -/
structure Row.Becomes (labels : Labels) (row : Row Statement) (result : Row Instruction) : Prop where
  label : result.label = row.label
  content : Option.Rel (IsRead labels) row.content result.content

theorem width_of_isRead {statement : Statement} {instruction : Instruction}
    (isRead : IsRead labels statement instruction) :
    instruction.width = statement.width := by
  rw [Instruction.width, Statement.width, Opcode.width, isRead.wellFormed, isRead.opcode]

/-- The instructions of a listing have their rows. -/
theorem exists_rows {rows : List (Row Statement)} {shown : List Instruction}
    (areRead : List.Forall₂ (IsRead labels) (rows.filterMap Row.content) shown) :
    ∃ results, List.Forall₂ (Row.Becomes labels) rows results ∧
      results.filterMap Row.content = shown := by
  induction rows generalizing shown with
  | nil =>
    cases areRead
    exact ⟨[], .nil, rfl⟩
  | cons row rest inductionHypothesis =>
    cases content : row.content with
    | none =>
      simp only [List.filterMap_cons, content] at areRead
      obtain ⟨results, related, rfl⟩ := inductionHypothesis areRead
      refine ⟨⟨row.label, none⟩ :: results, .cons ⟨rfl, ?_⟩ related, rfl⟩
      rw [content]
      exact .none
    | some statement =>
      simp only [List.filterMap_cons, content] at areRead
      cases areRead with
      | cons isRead others =>
        obtain ⟨results, related, rfl⟩ := inductionHypothesis others
        refine ⟨⟨row.label, some _⟩ :: results, .cons ⟨rfl, ?_⟩ related, rfl⟩
        rw [content]
        exact .some isRead

/-- The first pass counts the words that the instructions have. -/
theorem rowLabels_of_becomes {rows : List (Row Statement)} {results : List (Row Instruction)}
    (related : List.Forall₂ (Row.Becomes labels) rows results) (offset : Nat) :
    rowLabels Statement.width offset rows = rowLabels Instruction.width offset results := by
  induction related generalizing offset with
  | nil => rfl
  | @cons row result rows results becomes _ inductionHypothesis =>
    have sameWidth : row.width Statement.width = result.width Instruction.width := by
      obtain ⟨label, content⟩ := row
      obtain ⟨name, instruction⟩ := result
      cases becomes.content with
      | none => rfl
      | some isRead => exact (width_of_isRead isRead).symm
    rw [rowLabels, rowLabels, becomes.label, sameWidth, inductionHypothesis]

theorem isShown_of_becomes {row : Row Statement} {result : Row Instruction} {line : Nat}
    {text : List Char} (isOutlined : IsOutlined line text row) (becomes : row.Becomes labels result) :
    IsShown labels text result := by
  obtain ⟨found, isFound, isLabel, parts, isStatement⟩ := isOutlined
  refine ⟨found, isFound, becomes.label.trans isLabel, ?_⟩
  rw [parts]
  obtain ⟨label, content⟩ := row
  obtain ⟨name, instruction⟩ := result
  cases becomes.content with
  | none => exact .nothing
  | @some statement instruction isRead =>
    obtain ⟨sameOpcode, count, operands⟩ := isRead
    rw [← sameOpcode] at count operands
    apply Names.instruction
    · rw [(isStatement statement rfl).2, ← sameOpcode]
      rfl
    · exact count
    · exact operands.imp fun _ _ => jumpsTo_of_isOperand

theorem areShown_of_become {texts : List (List Char × Nat)} {rows : List (Row Statement)}
    {results : List (Row Instruction)}
    (areOutlined : List.Forall₂ (fun numbered => IsOutlined (numbered.2 + 1) numbered.1) texts rows)
    (become : List.Forall₂ (Row.Becomes labels) rows results) :
    List.Forall₂ (fun numbered => IsShown labels numbered.1) texts results := by
  induction areOutlined generalizing results with
  | nil =>
    cases become
    exact .nil
  | cons isOutlined _ inductionHypothesis =>
    cases become with
    | cons becomes others =>
      exact .cons (isShown_of_becomes isOutlined becomes) (inductionHypothesis others)

end Rows

/--
Both passes agree on the offsets. The table has one entry for each line that defines a label, with
the width of the instructions on earlier lines, and there the next instruction of the listing has
its words, or else the code ends. A jump is the number that its token is, and otherwise the offset
of the label that its token names, wherever that is defined. The code is that of the instructions in
the order of their lines.
-/
theorem assemble_resolves {source : String} {assembly : Assembly}
    (success : assemble source = .ok assembly) :
    ∃ rows : List (Row Instruction),
      List.Forall₂ (IsShown assembly.labels) (Text.lines source.toList) rows ∧
      assembly.instructions = rows.filterMap Row.content ∧
      assembly.code.words =
        assembly.instructions.flatMap (fun each => each.opcode.id :: each.operands) ∧
      assembly.labels.map (·.1) = rows.filterMap Row.label ∧
      (assembly.labels.map (·.1)).Nodup ∧
      (∀ label offset, assembly.labels.lookup label = some offset ↔
        ∃ before row after, rows = before ++ row :: after ∧ row.label = some label ∧
          offset = ((before.filterMap Row.content).map Instruction.width).sum) ∧
      (∀ before after, rows = before ++ after →
        let offset := ((before.filterMap Row.content).map Instruction.width).sum
        (∀ next others, after.filterMap Row.content = next :: others →
          (offset, next) ∈ placed 0 assembly.instructions) ∧
        (after.filterMap Row.content = [] → offset = assembly.code.words.length) ∧
        offset ≤ (Text.Utf8.encode source).length) := by
  obtain ⟨outline, isOutline, isShown, sameLabels, isCode⟩ := of_assemble_ok success
  obtain ⟨outlined, areOutlined, labels, statements, distinct⟩ := rows_of_outlineOf isOutline
  rw [← sameLabels] at isShown labels distinct
  rw [statements] at isShown
  obtain ⟨rows, become, instructions⟩ := exists_rows (of_instructions_ok isShown)
  rw [rowLabels_of_becomes become] at labels
  have names : assembly.labels.map (·.1) = rows.filterMap Row.label := by
    rw [labels, names_rowLabels]
  obtain ⟨_, words, _⟩ := CodeBlock.measures_of_encode isCode
  refine ⟨rows, ?_, instructions.symm, words, names, distinct, ?_, ?_⟩
  · have shown := List.forall₂_map_left_iff.mpr (areShown_of_become areOutlined become)
    rwa [List.zipIdx_map_fst] at shown
  · intro label offset
    rw [Labels.lookup_eq_some_iff distinct, labels, mem_rowLabels_iff]
    simp only [Nat.zero_add, rowsWidth]
  · intro before after parts
    have extent := (extent_of_assemble success).1
    rw [words, length_stream, ← instructions, parts, List.filterMap_append, List.map_append,
      List.sum_append] at extent
    refine ⟨?_, ?_, by omega⟩
    · intro next others behind
      rw [← instructions, parts, List.filterMap_append, behind]
      have member := mem_placed 0 (before.filterMap Row.content) next others
      rwa [Nat.zero_add] at member
    · intro nothing
      rw [words, length_stream, ← instructions, parts, List.filterMap_append, nothing,
        List.append_nil]

/-- A jump to a label at the end, one to its own line, and one to a number that is a label too. -/
theorem assemble_resolves_forward :
    let source := "goto end\nstart: goto start\n\n 7: goto 7 # seven\nend:"
    ∃ assembly, assemble source = .ok assembly ∧ assembly.code.words = [8, 6, 8, 2, 8, 7] ∧
      ∃ rows : List (Row Instruction), rows.filterMap Row.label = ["start", "7", "end"] ∧
        rows.filterMap Row.content = [⟨.goto, [6]⟩, ⟨.goto, [2]⟩, ⟨.goto, [7]⟩] ∧
        ∃ before row after, rows = before ++ row :: after ∧ row.label = some "7" ∧
          4 = ((before.filterMap Row.content).map Instruction.width).sum := by
  intro source
  have success : assemble source = .ok ⟨[⟨.goto, [6]⟩, ⟨.goto, [2]⟩, ⟨.goto, [7]⟩],
      ⟨[8, 6, 8, 2, 8, 7], 0⟩, [], [("start", 2), ("7", 4), ("end", 6)]⟩ := by decide +kernel
  obtain ⟨rows, _, instructions, _, names, _, offsets, _⟩ := assemble_resolves success
  exact ⟨_, success, rfl, rows, names.symm, instructions.symm, (offsets "7" 4).mp rfl⟩

end Listing

end CompiledCode
