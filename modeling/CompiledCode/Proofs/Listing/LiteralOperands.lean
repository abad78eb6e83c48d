import CompiledCode.Proofs.Listing.Interner
import CompiledCode.Proofs.Listing.Labels

/-!
What the operands of a listing have to do with its literals. Strings and symbols are numbered in the
order in which they are spelled, and an operand that spells one has its number. Operands that are
numbers add nothing, so that every literal of the table is the operand of some instruction.
-/

namespace CompiledCode.Listing

/-- The string or the symbol that a token spells; the name of a symbol is not empty. -/
def spelled? (text : List Char) : Option Literal :=
  match text with
  | '"' :: _ => (string? text).map .string
  | ':' :: first :: name => some (.symbol ((first :: name).flatMap String.utf8EncodeChar))
  | _ => none

/-- An operand of a listing: its kind, its token, and the word that it is read as. -/
structure Slot where
  kind : OperandKind
  token : Token
  word : UInt64
  deriving DecidableEq, Repr

namespace Slot

/-- Only the operands that name literals may spell one. -/
def literal? (slot : Slot) : Option Literal :=
  if slot.kind = .literal then spelled? slot.token.text else none

theorem literal?_of_ne {kind : OperandKind} (other : kind ≠ .literal) (token : Token)
    (word : UInt64) : literal? ⟨kind, token, word⟩ = none := if_neg other

end Slot

/-- The literals that operands spell, in order. -/
def spelledBy (slots : List Slot) : List Literal := slots.filterMap Slot.literal?

/-- The kinds, the tokens and the words that stand beside each other. -/
def slotsOf (operands : List (OperandKind × Token)) (words : List UInt64) : List Slot :=
  (operands.zip words).map fun ((kind, token), word) => ⟨kind, token, word⟩

/--
After the literals `before`, the table is that of the literals which the operands spell as well, and
the words of these operands are the places that it has them at.
-/
structure Binds (before : List Literal) (slots : List Slot) (table : LiteralTable) : Prop where
  isTable : table = (before ++ spelledBy slots).eraseDups
  words : ∀ slot ∈ slots, ∀ literal, slot.literal? = some literal →
    slot.word = .ofNat (table.idxOf literal)

namespace Binds

variable {before : List Literal} {slots others : List Slot} {middle table : LiteralTable}
  {slot : Slot} {literal : Literal}

theorem nil (before : List Literal) : Binds before [] before.eraseDups where
  isTable := by simp [spelledBy]
  words := by simp

theorem append (first : Binds before slots middle)
    (second : Binds (before ++ spelledBy slots) others table) :
    Binds before (slots ++ others) table where
  isTable := by
    rw [second.isTable, List.append_assoc, spelledBy, spelledBy, spelledBy, List.filterMap_append]
  words := fun slot member literal spells => by
    rcases List.mem_append.mp member with early | late
    · -- The place of a literal stays when more of them come.
      have known : literal ∈ before ++ spelledBy slots :=
        List.mem_append_right _ (List.mem_filterMap.mpr ⟨slot, early, spells⟩)
      rw [first.words slot early literal spells, first.isTable, second.isTable,
        idxOf_eraseDups_append known]
    · exact second.words slot late literal spells

/-- An operand that spells no literal leaves the table as it is. -/
theorem of_number (silent : slot.literal? = none) (before : List Literal) :
    Binds before [slot] before.eraseDups where
  isTable := by simp [spelledBy, silent]
  words := by simp [silent]

/-- An operand that spells a literal has the place that interning gives the literal. -/
theorem of_literal (spells : slot.literal? = some literal)
    (isPlace : slot.word = .ofNat (LiteralTable.intern before.eraseDups literal).1) :
    Binds before [slot] (LiteralTable.intern before.eraseDups literal).2 := by
  rw [LiteralTable.intern_eraseDups] at isPlace ⊢
  constructor
  · simp [spelledBy, spells]
  · simpa [spells] using isPlace

end Binds

section SecondPass

variable {labels : Labels} {before : List Literal} {next : LiteralTable}

theorem binds_literalOperand {token : Token} {word : UInt64}
    (success : literalOperand before.eraseDups token.text = .ok (word, next)) :
    Binds before [⟨.literal, token, word⟩] next := by
  have spelling : (Slot.mk .literal token word).literal? = spelled? token.text := if_pos rfl
  unfold literalOperand at success
  split at success
  · rename_i body isQuoted
    have isSpelled : spelled? token.text = (string? token.text).map .string := by
      rw [isQuoted]
      rfl
    split at success
    · rename_i bytes isString
      cases success
      rw [isSpelled, isString] at spelling
      exact .of_literal spelling rfl
    · cases success
  · rename_i first name isSymbol
    cases success
    rw [isSymbol] at spelling
    exact .of_literal spelling rfl
  · rename_i notQuoted notSymbol
    obtain ⟨place, _, same⟩ := except_bind_eq_ok.mp success
    cases same
    rw [spelled?.eq_def] at spelling
    split at spelling
    · rename_i isQuoted
      exact absurd isQuoted (notQuoted _)
    · rename_i isSymbol
      exact absurd isSymbol (notSymbol _ _)
    · exact .of_number spelling before

theorem binds_operand {kind : OperandKind} {token : Token} {word : UInt64}
    (success : operand labels before.eraseDups kind token.text = .ok (word, next)) :
    Binds before [⟨kind, token, word⟩] next := by
  unfold operand at success
  split at success
  · obtain ⟨_, _, same⟩ := except_map_eq_ok.mp success
    cases same
    exact .of_number (Slot.literal?_of_ne (by decide) _ _) before
  · exact binds_literalOperand success
  · rename_i notJump notLiteral
    obtain ⟨_, _, same⟩ := except_map_eq_ok.mp success
    cases same
    exact .of_number (Slot.literal?_of_ne notLiteral _ _) before

theorem binds_operands {line : Nat} {pairs : List (OperandKind × Token)} {words : List UInt64}
    (success : operands labels line before.eraseDups pairs = .ok (words, next)) :
    Binds before (slotsOf pairs words) next := by
  induction pairs generalizing before words with
  | nil =>
    cases success
    exact .nil before
  | cons pair rest inductionHypothesis =>
    obtain ⟨kind, token⟩ := pair
    rw [operands] at success
    split at success
    · cases success
    · rename_i word middle isOperand
      obtain ⟨⟨others, last⟩, more, same⟩ := except_bind_eq_ok.mp success
      cases same
      have first := binds_operand isOperand
      rw [first.isTable] at more
      exact first.append (inductionHypothesis more)

/-- The operands of a statement that is read as the instruction. -/
def Statement.slots (statement : Statement) (instruction : Instruction) : List Slot :=
  slotsOf (statement.opcode.operandKinds.zip statement.arguments) instruction.operands

theorem binds_instruction {statement : Statement} {instruction : Instruction}
    (success : statement.instruction labels before.eraseDups = .ok (instruction, next)) :
    Binds before (statement.slots instruction) next := by
  unfold Statement.instruction at success
  dsimp only at success
  split at success
  · obtain ⟨⟨words, last⟩, areOperands, same⟩ := except_bind_eq_ok.mp success
    cases same
    exact binds_operands areOperands
  · cases success

theorem binds_instructions {statements : List Statement} {shown : List Instruction}
    (success : instructions labels before.eraseDups statements = .ok (shown, next)) :
    Binds before ((statements.zip shown).flatMap fun (statement, instruction) =>
      statement.slots instruction) next := by
  induction statements generalizing before shown with
  | nil =>
    cases success
    exact .nil before
  | cons first rest inductionHypothesis =>
    rw [instructions] at success
    obtain ⟨⟨instruction, middle⟩, isInstruction, more⟩ := except_bind_eq_ok.mp success
    obtain ⟨⟨others, last⟩, areOthers, same⟩ := except_bind_eq_ok.mp more
    cases same
    have binds := binds_instruction isInstruction
    rw [binds.isTable] at areOthers
    exact binds.append (inductionHypothesis areOthers)

end SecondPass

section Lines

variable {labels : Labels}

/-- The operands of a line that has the row: its tokens behind the name of the instruction. -/
def lineSlots (text : List Char) (row : Row Instruction) : List Slot :=
  match tokens text, row.content with
  | .ok found, some instruction =>
    slotsOf (instruction.opcode.operandKinds.zip (instructionTokens found).tail)
      instruction.operands
  | _, _ => []

/-- The operands of the lines are those of the statements that are read from them. -/
theorem lineSlots_of_become {texts : List (List Char × Nat)} {rows : List (Row Statement)}
    {results : List (Row Instruction)}
    (areOutlined : List.Forall₂ (fun numbered => IsOutlined (numbered.2 + 1) numbered.1) texts rows)
    (become : List.Forall₂ (Row.Becomes labels) rows results) :
    ((texts.map (·.1)).zip results).flatMap (fun (text, row) => lineSlots text row) =
      ((rows.filterMap Row.content).zip (results.filterMap Row.content)).flatMap
        fun (statement, instruction) => statement.slots instruction := by
  induction areOutlined generalizing results with
  | nil => rfl
  | @cons numbered row texts rows isOutlined _ inductionHypothesis =>
    cases become with
    | @cons _ result _ results becomes others =>
      rw [List.map_cons, List.zip_cons_cons, List.flatMap_cons, inductionHypothesis others]
      obtain ⟨found, isFound, _, parts, _⟩ := isOutlined
      obtain ⟨label, content⟩ := row
      obtain ⟨name, instruction⟩ := result
      cases becomes.content with
      | none => simp [lineSlots, isFound]
      | some isRead =>
        have sameSlots : instructionTokens found = _ := parts
        simp [lineSlots, isFound, sameSlots, isRead.opcode, Statement.slots, Statement.parts]

end Lines

section Listings

/-- The operands of a listing whose lines have the rows. -/
def sourceSlots (source : String) (rows : List (Row Instruction)) : List Slot :=
  ((Text.lines source.toList).zip rows).flatMap fun (text, row) => lineSlots text row

/-- The operands of a listing that is assembled have the places of their literals. -/
theorem binds_of_assemble {source : String} {assembly : Assembly}
    (success : assemble source = .ok assembly) : ∃ rows : List (Row Instruction),
      List.Forall₂ (IsShown assembly.labels) (Text.lines source.toList) rows ∧
      assembly.instructions = rows.filterMap Row.content ∧
      Binds [] (sourceSlots source rows) assembly.literals := by
  obtain ⟨outline, isOutline, areShown, sameLabels, _⟩ := of_assemble_ok success
  obtain ⟨outlined, areOutlined, _, statements, _⟩ := rows_of_outlineOf isOutline
  rw [← sameLabels, statements] at areShown
  obtain ⟨rows, become, instructions⟩ := exists_rows (of_instructions_ok areShown)
  have binds : Binds [] _ assembly.literals := binds_instructions areShown
  have lines := List.forall₂_map_left_iff.mpr (areShown_of_become areOutlined become)
  have slots := lineSlots_of_become areOutlined become
  rw [List.zipIdx_map_fst] at lines slots
  rw [← instructions, ← slots] at binds
  exact ⟨rows, lines, instructions.symm, binds⟩

variable {slots : List Slot} {table : LiteralTable}

/-- What an operand spells is at the place that its word is. -/
theorem Binds.there (binds : Binds [] slots table) {slot : Slot} (member : slot ∈ slots)
    {literal : Literal} (spells : slot.literal? = some literal) :
    ∃ place : Nat, slot.word = .ofNat place ∧ table[place]? = some literal := by
  refine ⟨table.idxOf literal, binds.words slot member literal spells, ?_⟩
  apply List.getElem?_idxOf
  rw [binds.isTable, List.mem_eraseDups]
  exact List.mem_filterMap.mpr ⟨slot, member, spells⟩

/-- What the table has at a place is spelled by an operand whose word is the place. -/
theorem Binds.used (binds : Binds [] slots table) {place : Nat} {literal : Literal}
    (there : table[place]? = some literal) :
    ∃ slot ∈ slots, slot.literal? = some literal ∧ slot.word = .ofNat place := by
  have member := List.mem_of_getElem? there
  rw [binds.isTable, List.mem_eraseDups] at member
  obtain ⟨slot, isSlot, spells⟩ := List.mem_filterMap.mp member
  refine ⟨slot, isSlot, spells, ?_⟩
  have distinct : table.Nodup := by
    rw [binds.isTable]
    exact nodup_eraseDups _
  obtain ⟨inside, rfl⟩ := List.getElem?_eq_some_iff.mp there
  rw [binds.words slot isSlot _ spells, distinct.idxOf_getElem place inside]

end Listings

/--
Interning numbers literals once and for all. A call gives a place of the table at which the literal
is, and there it is after all later calls too, which do not change what earlier ones gave. Two calls
give the same place exactly if their literals are the same. The table has the literals in the order
of their first calls and none of them twice. An index that is kept beside the table gives the same
places and stays the inverse of the table. In a listing that is assembled the table is that of the
strings and symbols which the operands spell, an operand that spells one is the place of it, and
every place of the table is such an operand.
-/
theorem interning_is_stable :
    (∀ calls later : List Literal,
      let places := (numbered LiteralTable.intern [] calls).1
      let table := (numbered LiteralTable.intern [] calls).2
      let last := numbered LiteralTable.intern [] (calls ++ later)
      let interner := (numbered Interner.intern .empty calls).2
      List.Forall₂ (fun literal place => place < table.length ∧ table[place]? = some literal ∧
        last.2[place]? = some literal) calls places ∧
      places <+: last.1 ∧
      (∀ first second, first < calls.length → second < calls.length →
        (places[first]? = places[second]? ↔ calls[first]? = calls[second]?)) ∧
      table.Nodup ∧ table = calls.eraseDups ∧
      (numbered Interner.intern .empty calls).1 = places ∧ interner.literals = table ∧
      ∀ literal place, interner.index.lookup literal = some place ↔
        interner.literals[place]? = some literal) ∧
    ∀ source assembly, assemble source = .ok assembly → ∃ rows : List (Row Instruction),
      List.Forall₂ (IsShown assembly.labels) (Text.lines source.toList) rows ∧
      assembly.instructions = rows.filterMap Row.content ∧
      assembly.literals = (spelledBy (sourceSlots source rows)).eraseDups ∧
      (∀ slot ∈ sourceSlots source rows, ∀ literal, slot.literal? = some literal →
        ∃ place : Nat, slot.word = .ofNat place ∧ assembly.literals[place]? = some literal) ∧
      (∀ place literal, assembly.literals[place]? = some literal →
        ∃ slot ∈ sourceSlots source rows,
          slot.literal? = some literal ∧ slot.word = .ofNat place) ∧
      assembly.literals.length ≤ (Text.Utf8.encode source).length := by
  constructor
  · intro calls later
    have isEmpty : Interner.empty.literals = [] := rfl
    obtain ⟨samePlaces, sameTable, inverse⟩ :=
      numbered_interner Interner.isInverse_empty calls
    rw [isEmpty] at samePlaces sameTable
    have isTable : (numbered LiteralTable.intern [] calls).2 = calls.eraseDups := by
      rw [numbered_empty]
    refine ⟨places_hold calls later, places_prefix calls later, ?_, ?_, isTable, samePlaces,
      sameTable, inverse⟩
    · intro first second isFirst isSecond
      exact places_eq_iff calls isFirst isSecond
    · rw [isTable]
      exact nodup_eraseDups calls
  · intro source assembly success
    obtain ⟨rows, lines, instructions, binds⟩ := binds_of_assemble success
    have isTable := binds.isTable
    rw [List.nil_append] at isTable
    refine ⟨rows, lines, instructions, isTable, ?_, ?_, (extent_of_assemble success).2.1⟩
    · intro slot member literal spells
      exact binds.there member spells
    · intro place literal there
      exact binds.used there

/--
A string and a symbol of the same bytes are two literals. In the listing, one literal is spelled
twice in different ways, and an operand is a number that no literal has.
-/
theorem interning_is_stable_mixed :
    let calls : List Literal := [.symbol [97], .string [97], .symbol [97]]
    let source := "push_literal \"\\t\"\npush_literal 7\npush_const :a\nset_literal \"\t\""
    (numbered LiteralTable.intern [] calls).1 = [0, 1, 0] ∧
      (numbered Interner.intern .empty calls).2 =
        ⟨[.symbol [97], .string [97]], [(.string [97], 1), (.symbol [97], 0)]⟩ ∧
      List.Forall₂ (fun literal place => place < 2 ∧ [.symbol [97], .string [97]][place]? =
        some literal ∧ [.symbol [97], .string [97], .string [0]][place]? = some literal)
        calls [0, 1, 0] ∧
      ∃ assembly, assemble source = .ok assembly ∧ assembly.code.words = [6, 0, 6, 7, 23, 1, 64, 0] ∧
        assembly.literals = [.string [9], .symbol [97]] ∧
        ∃ rows : List (Row Instruction), rows.filterMap Row.content = assembly.instructions ∧
          (spelledBy (sourceSlots source rows)).eraseDups = [.string [9], .symbol [97]] ∧
          ∃ slot ∈ sourceSlots source rows,
            slot.literal? = some (.symbol [97]) ∧ slot.word = 1 := by
  intro calls source
  have success : assemble source = .ok ⟨[⟨.pushLiteral, [0]⟩, ⟨.pushLiteral, [7]⟩,
      ⟨.pushConst, [1]⟩, ⟨.setLiteral, [0]⟩], ⟨[6, 0, 6, 7, 23, 1, 64, 0], 3⟩,
      [.string [9], .symbol [97]], []⟩ := by decide +kernel
  obtain ⟨rows, _, instructions, isTable, _, used, _⟩ :=
    interning_is_stable.2 source _ success
  obtain ⟨holds, _⟩ := interning_is_stable.1 calls [.string [0]]
  refine ⟨by decide +kernel, by decide +kernel, holds, _, success, rfl, rfl, rows,
    instructions.symm, isTable.symm, used 1 (.symbol [97]) rfl⟩

end CompiledCode.Listing
