import Mathlib.Algebra.Ring.Nat
import Mathlib.Data.List.Forall2
import CompiledCode.Proofs.Listing.Extent

/-!
A listing as rows, one for each line: the label that the line defines and what stands behind it. The
first pass reads a row from every line, and what it has found is a function of the rows.
-/

namespace CompiledCode

/-- The mnemonic of an opcode that is found is the name that it is looked for under. -/
theorem Opcode.mnemonic_of_ofMnemonic {name : String} {opcode : Opcode}
    (found : ofMnemonic name = .ok opcode) : opcode.mnemonic = name := by
  rw [ofMnemonic] at found
  split at found
  · rename_i known
    cases found
    simpa using List.find?_some known
  · cases found

namespace Listing

/-- What a line holds: a label that it defines, and the content behind the definition. -/
structure Row (α : Type) where
  label : Option String
  content : Option α

/-- The label that the first token of a line defines. -/
def definedLabel (found : List Token) : Option String := found.head?.bind Token.label?

/-- The tokens of a line without the one that defines a label. -/
def instructionTokens (found : List Token) : List Token :=
  if (definedLabel found).isSome then found.tail else found

section Widths

variable {α : Type} (size : α → Nat)

/-- Words that the content of a row takes, when each content has its size. -/
def Row.width (row : Row α) : Nat := row.content.elim 0 size

/-- Words that the contents of the rows take. -/
def rowsWidth (rows : List (Row α)) : Nat := ((rows.filterMap Row.content).map size).sum

/-- The labels of the rows, each with the width of the rows in front of it. -/
def rowLabels (offset : Nat) : List (Row α) → Labels
  | [] => []
  | row :: rest => (row.label.map (·, offset)).toList ++ rowLabels (offset + row.width size) rest

variable {size} {row : Row α} {rows before after : List (Row α)}

theorem rowsWidth_cons : rowsWidth size (row :: rows) = row.width size + rowsWidth size rows := by
  cases content : row.content <;> simp [rowsWidth, Row.width, content]

theorem names_rowLabels (offset : Nat) (rows : List (Row α)) :
    (rowLabels size offset rows).map (·.1) = rows.filterMap Row.label := by
  induction rows generalizing offset with
  | nil => rfl
  | cons row rest inductionHypothesis =>
    rw [rowLabels, List.map_append, inductionHypothesis, List.filterMap_cons]
    cases row.label <;> rfl

/-- A label stands for the width of the rows in front of its own. -/
theorem mem_rowLabels_iff {label : String} {start offset : Nat} :
    (label, offset) ∈ rowLabels size start rows ↔
      ∃ before row after, rows = before ++ row :: after ∧ row.label = some label ∧
        offset = start + rowsWidth size before := by
  induction rows generalizing start with
  | nil => simp [rowLabels]
  | cons first rest inductionHypothesis =>
    rw [rowLabels, List.mem_append, inductionHypothesis]
    constructor
    · intro member
      rcases member with here | ⟨before, row, after, rfl, defines, rfl⟩
      · refine ⟨[], first, rest, rfl, ?_⟩
        simpa [rowsWidth, eq_comm] using here
      · exact ⟨first :: before, row, after, rfl, defines, by rw [rowsWidth_cons, Nat.add_assoc]⟩
    · intro ⟨before, row, after, parts, defines, isOffset⟩
      cases before with
      | nil =>
        obtain ⟨rfl, rfl⟩ := List.cons.inj parts
        left
        simp [defines, isOffset, rowsWidth]
      | cons other before =>
        obtain ⟨rfl, rfl⟩ := List.cons.inj parts
        right
        exact ⟨before, row, after, rfl, defines, by rw [isOffset, rowsWidth_cons, Nat.add_assoc]⟩

end Widths

/-- The first pass reads the row from a line of this number. -/
def IsOutlined (line : Nat) (text : List Char) (row : Row Statement) : Prop :=
  ∃ found, tokens text = .ok found ∧ row.label = definedLabel found ∧
    instructionTokens found = row.content.elim [] Statement.parts ∧
    ∀ statement ∈ row.content, statement.line = line ∧
      String.ofList statement.head.text = statement.opcode.mnemonic

/-- Words that the instruction of a statement takes. -/
def Statement.width (statement : Statement) : Nat := statement.opcode.width

/-- The outline after further rows. -/
def Outline.extended (outline : Outline) (rows : List (Row Statement)) : Outline where
  offset := outline.offset + rowsWidth Statement.width rows
  labels := outline.labels ++ rowLabels Statement.width outline.offset rows
  reversed := (rows.filterMap Row.content).reverse ++ outline.reversed

section FirstPass

variable {row : Row Statement} {rows : List (Row Statement)} {outline next : Outline} {line : Nat}

theorem Outline.extended_nil : outline.extended [] = outline := by
  simp [extended, rowsWidth, rowLabels]

theorem Outline.extended_cons :
    (outline.extended [row]).extended rows = outline.extended (row :: rows) := by
  cases content : row.content <;>
    simp [extended, rowsWidth, rowLabels, Nat.add_assoc, content, Row.width]

theorem Outline.names_extended : (outline.extended rows).labels.map (·.1) =
    outline.labels.map (·.1) ++ rows.filterMap Row.label := by
  rw [extended, List.map_append, names_rowLabels]

theorem Outline.statements_extended :
    (outline.extended rows).statements = outline.statements ++ rows.filterMap Row.content := by
  simp [statements, extended]

/-- The tokens of an instruction add a row without a label. -/
theorem Outline.of_add_ok {found : List Token} (success : outline.add line found = .ok next) :
    ∃ content : Option Statement, found = content.elim [] Statement.parts ∧
      (∀ statement ∈ content, statement.line = line ∧
        String.ofList statement.head.text = statement.opcode.mnemonic) ∧
      next = outline.extended [⟨none, content⟩] := by
  cases found with
  | nil =>
    cases success
    refine ⟨none, rfl, by simp, ?_⟩
    simp [extended, rowsWidth, rowLabels]
  | cons head arguments =>
    rw [add] at success
    split at success
    · cases success
    · rename_i opcode known
      cases success
      refine ⟨some ⟨line, head, opcode, arguments⟩, rfl, ?_, ?_⟩
      · simp [Opcode.mnemonic_of_ofMnemonic known]
      · simp [extended, rowsWidth, rowLabels, Statement.width]

/-- A definition adds a row with nothing but a label, and the label is new. -/
theorem Outline.of_define_ok {token : Token} {label : String}
    (success : outline.define line token label = .ok next) :
    next = outline.extended [⟨some label, none⟩] ∧ label ∉ outline.labels.map (·.1) := by
  rw [define] at success
  split at success
  · cases success
  · rename_i unknown
    cases success
    constructor
    · simp [extended, rowsWidth, rowLabels]
    · rw [Option.not_isSome_iff_eq_none, List.lookup_eq_none_iff] at unknown
      intro member
      obtain ⟨pair, isPair, rfl⟩ := List.mem_map.mp member
      simpa using unknown pair isPair

/-- A line adds the row that it holds, and its label is new. -/
theorem Outline.of_addLine_ok {text : List Char} (success : outline.addLine line text = .ok next) :
    ∃ row, IsOutlined line text row ∧ next = outline.extended [row] ∧
      ∀ label ∈ row.label, label ∉ outline.labels.map (·.1) := by
  unfold addLine at success
  split at success
  · cases success
  · rename_i isFound
    cases success
    refine ⟨⟨none, none⟩, ⟨[], isFound, rfl, rfl, by simp⟩, ?_, by simp⟩
    simp [extended, rowsWidth, rowLabels]
  · rename_i first rest isFound
    split at success
    · rename_i noLabel
      obtain ⟨content, parts, isStatement, rfl⟩ := of_add_ok success
      refine ⟨⟨none, content⟩, ⟨first :: rest, isFound, ?_, ?_, isStatement⟩, rfl, by simp⟩
      · simp [definedLabel, noLabel]
      · simpa [instructionTokens, definedLabel, noLabel] using parts
    · rename_i label isLabel
      obtain ⟨middle, defined, added⟩ := except_bind_eq_ok.mp success
      obtain ⟨rfl, fresh⟩ := of_define_ok defined
      obtain ⟨content, parts, isStatement, rfl⟩ := of_add_ok added
      refine ⟨⟨some label, content⟩, ⟨first :: rest, isFound, ?_, ?_, isStatement⟩, ?_, ?_⟩
      · simp [definedLabel, isLabel]
      · simpa [instructionTokens, definedLabel, isLabel] using parts
      · cases content <;> simp [extended, rowsWidth, rowLabels, Statement.width]
      · simpa using fresh

/-- The lines add the rows that they hold, and no label comes twice. -/
theorem Outline.of_foldlM_ok {texts : List (List Char × Nat)}
    (success : texts.foldlM (fun outline (text, index) => outline.addLine (index + 1) text)
      outline = .ok next) :
    ∃ rows, List.Forall₂ (fun numbered => IsOutlined (numbered.2 + 1) numbered.1) texts rows ∧
      next = outline.extended rows ∧
      ((outline.labels.map (·.1)).Nodup → (next.labels.map (·.1)).Nodup) := by
  induction texts generalizing outline with
  | nil =>
    cases success
    exact ⟨[], .nil, extended_nil.symm, id⟩
  | cons first rest inductionHypothesis =>
    rw [List.foldlM_cons] at success
    obtain ⟨middle, added, more⟩ := except_bind_eq_ok.mp success
    obtain ⟨row, isRow, rfl, fresh⟩ := of_addLine_ok added
    obtain ⟨rows, areRows, rfl, distinct⟩ := inductionHypothesis more
    refine ⟨row :: rows, .cons isRow areRows, extended_cons, ?_⟩
    intro earlier
    apply distinct
    rw [names_extended]
    cases label : row.label with
    | none => simpa [label] using earlier
    | some name =>
      have new := fresh name label
      simp only [List.filterMap_cons, label, List.filterMap_nil]
      apply List.nodup_append.mpr
      refine ⟨earlier, by simp, ?_⟩
      intro other member same isSame equal
      obtain rfl := List.mem_singleton.mp isSame
      exact new (equal ▸ member)

/-- The first pass reads a row from every line. -/
theorem rows_of_outlineOf {source : String} {outline : Outline}
    (success : outlineOf source = .ok outline) :
    ∃ rows, List.Forall₂ (fun numbered => IsOutlined (numbered.2 + 1) numbered.1)
        (Text.lines source.toList).zipIdx rows ∧
      outline.labels = rowLabels Statement.width 0 rows ∧
      outline.statements = rows.filterMap Row.content ∧ (outline.labels.map (·.1)).Nodup := by
  obtain ⟨rows, areRows, rfl, distinct⟩ := Outline.of_foldlM_ok success
  exact ⟨rows, areRows, rfl, Outline.statements_extended, distinct List.nodup_nil⟩

end FirstPass

section SecondPass

variable {labels : Labels} {table next : LiteralTable}

/-- A value is read as the operand of a slot, with the literals that are there at that time. -/
def IsOperand (labels : Labels) (slot : OperandKind × Token) (value : UInt64) : Prop :=
  ∃ table next, operand labels table slot.1 slot.2.text = .ok (value, next)

/-- The second pass reads the instruction from the statement. -/
structure IsRead (labels : Labels) (statement : Statement) (instruction : Instruction) :
    Prop where
  opcode : instruction.opcode = statement.opcode
  count : statement.arguments.length = statement.opcode.operandKinds.length
  operands : List.Forall₂ (IsOperand labels)
    (statement.opcode.operandKinds.zip statement.arguments) instruction.operands

/-- An instruction that is read has the operands that the table asks for. -/
theorem IsRead.wellFormed {statement : Statement} {instruction : Instruction}
    (isRead : IsRead labels statement instruction) : instruction.IsWellFormed := by
  have count := isRead.operands.length_eq
  rw [List.length_zip, isRead.count, Nat.min_self, ← isRead.opcode] at count
  exact count.symm

theorem of_operands_ok {line : Nat} {slots : List (OperandKind × Token)} {values : List UInt64}
    (success : operands labels line table slots = .ok (values, next)) :
    List.Forall₂ (IsOperand labels) slots values := by
  induction slots generalizing table values with
  | nil =>
    cases success
    exact .nil
  | cons slot rest inductionHypothesis =>
    obtain ⟨kind, token⟩ := slot
    rw [operands] at success
    split at success
    · cases success
    · rename_i value middle isOperand
      obtain ⟨⟨others, last⟩, more, same⟩ := except_bind_eq_ok.mp success
      cases same
      exact .cons ⟨table, middle, isOperand⟩ (inductionHypothesis more)

theorem of_instruction_ok {statement : Statement} {instruction : Instruction}
    (success : statement.instruction labels table = .ok (instruction, next)) :
    IsRead labels statement instruction := by
  unfold Statement.instruction at success
  dsimp only at success
  split at success
  · rename_i count
    obtain ⟨⟨values, last⟩, areOperands, same⟩ := except_bind_eq_ok.mp success
    cases same
    exact ⟨rfl, count, of_operands_ok areOperands⟩
  · cases success

/-- The second pass reads an instruction from every statement. -/
theorem of_instructions_ok {statements : List Statement} {shown : List Instruction}
    (success : instructions labels table statements = .ok (shown, next)) :
    List.Forall₂ (IsRead labels) statements shown := by
  induction statements generalizing table shown with
  | nil =>
    cases success
    exact .nil
  | cons first rest inductionHypothesis =>
    rw [instructions] at success
    obtain ⟨⟨instruction, middle⟩, isInstruction, more⟩ := except_bind_eq_ok.mp success
    obtain ⟨⟨others, last⟩, areOthers, same⟩ := except_bind_eq_ok.mp more
    cases same
    exact .cons (of_instruction_ok isInstruction) (inductionHypothesis areOthers)

end SecondPass

end Listing

end CompiledCode
