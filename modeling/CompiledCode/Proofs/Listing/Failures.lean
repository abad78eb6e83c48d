import CompiledCode.Proofs.Code.StackDepth
import CompiledCode.Proofs.Listing.Columns
import CompiledCode.Proofs.Listing.Reassembly
import CompiledCode.Proofs.Listing.Rows

/-!
Where a listing that is not assembled is at fault. Both passes name the line and the column of the
token that they do not accept. The encoder comes after them and knows neither, so that a stack
effect which overflows has no place.
-/

namespace CompiledCode

/-- The name that is not found is no mnemonic. -/
theorem Opcode.of_ofMnemonic_error {name : String} {cause : CodeError}
    (failed : ofMnemonic name = .error cause) :
    (∀ opcode : Opcode, opcode.mnemonic ≠ name) ∧ cause = .invalidMnemonic name := by
  rw [ofMnemonic] at failed
  split at failed
  · cases failed
  · rename_i absent
    cases failed
    constructor
    · intro opcode
      simpa using List.find?_eq_none.mp absent opcode opcode.mem_all
    · rfl

namespace Listing

open Instruction

/-- The text is the line of the source with this number, where lines are counted from one. -/
def HasLine (source : String) (line : Nat) (text : List Char) : Prop :=
  0 < line ∧ (Text.lines source.toList)[line - 1]? = some text

/-- The labels that lines define, in order. -/
def definedLabels (texts : List (List Char)) : List String :=
  texts.filterMap fun text => (tokens text).toOption.bind definedLabel

/-- No operand of the kind is spelled like this. -/
def IsUnreadable (kind : OperandKind) (text : List Char) : Prop :=
  kind ≠ .ip ∧ Text.word? text = none ∧
    (kind = .literal → string? text = none ∧ ∀ first name, text ≠ ':' :: first :: name)

/--
The token has the fault in a line with the tokens `found`, when earlier lines define the labels
`earlier`, and all lines the labels `labels`.
-/
inductive IsAtFault (earlier labels : List String) (found : List Token) :
    Token → TokenFault → Prop where
  | duplicateLabel {token : Token} {label : String} (isFirst : found.head? = some token)
      (defines : token.label? = some label) (again : label ∈ earlier) :
      IsAtFault earlier labels found token (.duplicateLabel label)
  | mnemonic {head : Token} {arguments : List Token}
      (parts : instructionTokens found = head :: arguments)
      (unknown : ∀ opcode : Opcode, opcode.mnemonic ≠ String.ofList head.text) :
      IsAtFault earlier labels found head
        (.instruction (.invalidMnemonic (String.ofList head.text)))
  | operandCount {head : Token} {arguments : List Token} {opcode : Opcode}
      (parts : instructionTokens found = head :: arguments)
      (known : String.ofList head.text = opcode.mnemonic)
      (differs : arguments.length ≠ opcode.operandCount) :
      IsAtFault earlier labels found head
        (.instruction (.operandCount opcode.mnemonic opcode.operandCount arguments.length))
  | undefinedLabel {head token : Token} {arguments : List Token} {opcode : Opcode}
      (parts : instructionTokens found = head :: arguments)
      (known : String.ofList head.text = opcode.mnemonic)
      (slot : (.ip, token) ∈ opcode.operandKinds.zip arguments)
      (noNumber : Text.word? token.text = none) (unknown : String.ofList token.text ∉ labels) :
      IsAtFault earlier labels found token (.undefinedLabel (String.ofList token.text))
  | invalidOperand {head token : Token} {arguments : List Token} {opcode : Opcode}
      {kind : OperandKind} (parts : instructionTokens found = head :: arguments)
      (known : String.ofList head.text = opcode.mnemonic)
      (slot : (kind, token) ∈ opcode.operandKinds.zip arguments)
      (unreadable : IsUnreadable kind token.text) :
      IsAtFault earlier labels found token (.invalidOperand kind (String.ofList token.text))

/--
The failure names a line of the source and a column of it, where a token stands that has the fault
or whose quotes are not closed.
-/
inductive AssemblyError.IsPlaced (source : String) : AssemblyError → Prop where
  | refused {line : Nat} {text : List Char} {found : List Token} {token : Token}
      {fault : TokenFault} (isLine : HasLine source line text) (areTokens : tokens text = .ok found)
      (member : token ∈ found) (stands : StandsAt 1 token.column token.text text)
      (isAtFault : IsAtFault (definedLabels ((Text.lines source.toList).take (line - 1)))
        (definedLabels (Text.lines source.toList)) found token fault) :
      IsPlaced source (.refused line token.column fault)
  | unterminated {line column : Nat} {text before part : List Char}
      (isLine : HasLine source line text) (isEnd : text = before ++ part)
      (stands : StandsAt 1 column part text) (unclosed : IsUnclosed part) :
      IsPlaced source (.unterminatedString line column)

/-- The instructions of the listing are read, and the stack depth overflows first at this one. -/
def OverflowsAt (source : String) (first : Instruction) : Prop :=
  ∃ outline literals before after, outlineOf source = .ok outline ∧
    instructions outline.labels [] outline.statements = .ok (before ++ first :: after, literals) ∧
    IsEncodable before ∧ ¬ IsEncodable (before ++ [first])

section Lines

/-- What stands in the second list has a partner in the first. -/
theorem exists_of_forall₂ {α β : Type} {related : α → β → Prop} {first : List α} {second : List β}
    {b : β} (areRelated : List.Forall₂ related first second) (member : b ∈ second) :
    ∃ a ∈ first, related a b := by
  induction areRelated with
  | nil => cases member
  | cons isRelated _ inductionHypothesis =>
    rcases List.mem_cons.mp member with rfl | further
    · exact ⟨_, List.mem_cons_self, isRelated⟩
    · obtain ⟨a, isMember, partner⟩ := inductionHypothesis further
      exact ⟨a, List.mem_cons_of_mem _ isMember, partner⟩

variable {earlier labels : List String} {found : List Token} {token : Token} {fault : TokenFault}

theorem mem_of_mem_instructionTokens (member : token ∈ instructionTokens found) :
    token ∈ found := by
  rw [instructionTokens] at member
  split at member
  · exact List.mem_of_mem_tail member
  · exact member

theorem IsAtFault.mem (isAtFault : IsAtFault earlier labels found token fault) :
    token ∈ found := by
  cases isAtFault with
  | duplicateLabel isFirst _ _ => exact List.mem_of_mem_head? isFirst
  | mnemonic parts _ | operandCount parts _ _ =>
    apply mem_of_mem_instructionTokens
    simp [parts]
  | undefinedLabel parts _ slot _ _ | invalidOperand parts _ slot _ =>
    apply mem_of_mem_instructionTokens
    simp [parts, (List.of_mem_zip slot).2]

/-- A fault of a token on a line of the source has a place. -/
theorem isPlaced_of_isAtFault {source : String} {line : Nat} {text : List Char}
    (isLine : HasLine source line text) (areTokens : tokens text = .ok found)
    (isAtFault : IsAtFault (definedLabels ((Text.lines source.toList).take (line - 1)))
      (definedLabels (Text.lines source.toList)) found token fault) :
    AssemblyError.IsPlaced source (.refused line token.column fault) := by
  have located := tokens_isLocated text
  rw [areTokens] at located
  exact .refused isLine areTokens isAtFault.mem (located token isAtFault.mem) isAtFault

theorem hasLine_of_mem {source : String} {text : List Char} {index : Nat}
    (member : (text, index) ∈ (Text.lines source.toList).zipIdx) :
    HasLine source (index + 1) text :=
  ⟨Nat.succ_pos index, List.mk_mem_zipIdx_iff_getElem?.mp member⟩

/-- In front of a line stand the lines with smaller numbers. -/
theorem front_of_zipIdx {texts : List (List Char)} {before after : List (List Char × Nat)}
    {text : List Char} {index : Nat} (parts : texts.zipIdx = before ++ (text, index) :: after) :
    before.map (·.1) = texts.take index := by
  have place : texts.zipIdx[before.length]? = some (text, index) := by simp [parts]
  rw [List.getElem?_zipIdx] at place
  obtain ⟨_, _, same⟩ := Option.map_eq_some_iff.mp place
  have isIndex : index = before.length := by
    have number := congrArg Prod.snd same
    simpa using number.symm
  rw [← List.zipIdx_map_fst 0 texts, parts, isIndex]
  simp

/-- The first pass finds the labels that the lines define. -/
theorem labels_of_areOutlined {texts : List (List Char × Nat)} {rows : List (Row Statement)}
    (areRows : List.Forall₂ (fun numbered => IsOutlined (numbered.2 + 1) numbered.1) texts rows) :
    rows.filterMap Row.label = definedLabels (texts.map (·.1)) := by
  rw [definedLabels, List.filterMap_map]
  induction areRows with
  | nil => rfl
  | cons isOutlined _ inductionHypothesis =>
    obtain ⟨found, areTokens, isLabel, _⟩ := isOutlined
    simp [List.filterMap_cons, inductionHypothesis, areTokens, isLabel, Except.toOption]

end Lines

section FirstPass

variable {outline : Outline} {line : Nat} {found : List Token} {failure : AssemblyError}

theorem Outline.of_add_error (failed : outline.add line found = .error failure) :
    ∃ head arguments, found = head :: arguments ∧
      (∀ opcode : Opcode, opcode.mnemonic ≠ String.ofList head.text) ∧
      failure = .refused line head.column
        (.instruction (.invalidMnemonic (String.ofList head.text))) := by
  cases found with
  | nil => cases failed
  | cons head arguments =>
    rw [add] at failed
    split at failed
    · rename_i cause unread
      cases failed
      obtain ⟨unknown, rfl⟩ := Opcode.of_ofMnemonic_error unread
      exact ⟨head, arguments, rfl, unknown, rfl⟩
    · cases failed

theorem Outline.of_define_error {token : Token} {label : String}
    (failed : outline.define line token label = .error failure) :
    label ∈ outline.labels.map (·.1) ∧
      failure = .refused line token.column (.duplicateLabel label) := by
  rw [define] at failed
  split at failed
  · rename_i known
    cases failed
    constructor
    · obtain ⟨offset, isOffset⟩ := Option.isSome_iff_exists.mp known
      obtain ⟨before, after, parts, _⟩ := List.lookup_eq_some_iff.mp isOffset
      simp [parts]
    · rfl
  · cases failed

/-- A line that adds nothing has quotes that are not closed, or a token at fault. -/
theorem Outline.of_addLine_error {text : List Char} (labels : List String)
    (failed : outline.addLine line text = .error failure) :
    (∃ column, tokens text = .error column ∧ failure = .unterminatedString line column) ∨
      ∃ found token fault, tokens text = .ok found ∧
        failure = .refused line token.column fault ∧
        IsAtFault (outline.labels.map (·.1)) labels found token fault := by
  unfold addLine at failed
  split at failed
  · rename_i column noTokens
    cases failed
    exact .inl ⟨column, noTokens, rfl⟩
  · cases failed
  · rename_i first rest areTokens
    right
    split at failed
    · rename_i noLabel
      obtain ⟨head, arguments, parts, unknown, rfl⟩ := of_add_error failed
      have tokens : instructionTokens (first :: rest) = head :: arguments := by
        simpa [instructionTokens, definedLabel, noLabel] using parts
      exact ⟨_, head, _, areTokens, rfl, .mnemonic tokens unknown⟩
    · rename_i label isLabel
      rcases except_bind_eq_error.mp failed with again | ⟨next, _, added⟩
      · obtain ⟨known, rfl⟩ := of_define_error again
        exact ⟨_, first, _, areTokens, rfl, .duplicateLabel rfl isLabel known⟩
      · obtain ⟨head, arguments, parts, unknown, rfl⟩ := of_add_error added
        have tokens : instructionTokens (first :: rest) = head :: arguments := by
          simpa [instructionTokens, definedLabel, isLabel] using parts
        exact ⟨_, head, _, areTokens, rfl, .mnemonic tokens unknown⟩

/-- A failure of the first pass has a place. -/
theorem isPlaced_of_outlineOf {source : String} (failed : outlineOf source = .error failure) :
    failure.IsPlaced source := by
  obtain ⟨before, ⟨text, index⟩, after, outline, parts, passed, here⟩ := of_foldlM_error failed
  have isLine : HasLine source (index + 1) text := by
    apply hasLine_of_mem
    simp [parts]
  obtain ⟨rows, areRows, rfl, _⟩ := Outline.of_foldlM_ok passed
  -- The lines in front of the failure have passed, so the labels so far are theirs.
  have earlier : (Outline.extended ⟨0, [], []⟩ rows).labels.map (·.1) =
      definedLabels ((Text.lines source.toList).take index) := by
    rw [Outline.names_extended, labels_of_areOutlined areRows, front_of_zipIdx parts]
    rfl
  rcases Outline.of_addLine_error (definedLabels (Text.lines source.toList)) here with
    ⟨column, noTokens, rfl⟩ | refused
  · have located := tokens_isLocated text
    rw [noTokens] at located
    obtain ⟨front, part, isEnd, stands, unclosed⟩ := located
    exact .unterminated isLine isEnd stands unclosed
  · obtain ⟨found, token, fault, areTokens, rfl, isAtFault⟩ := refused
    rw [earlier] at isAtFault
    exact isPlaced_of_isAtFault isLine areTokens isAtFault

end FirstPass

section SecondPass

variable {labels : Labels} {table : LiteralTable} {text : List Char} {fault : TokenFault}
  {failure : AssemblyError}

theorem of_numberOperand_error {kind : OperandKind}
    (failed : numberOperand kind text = .error fault) :
    Text.word? text = none ∧ fault = .invalidOperand kind (String.ofList text) := by
  rw [numberOperand] at failed
  split at failed
  · cases failed
  · rename_i noNumber
    cases failed
    exact ⟨noNumber, rfl⟩

theorem of_jumpOperand_error (failed : jumpOperand labels text = .error fault) :
    Text.word? text = none ∧ String.ofList text ∉ labels.map (·.1) ∧
      fault = .undefinedLabel (String.ofList text) := by
  rw [jumpOperand] at failed
  split at failed
  · cases failed
  · rename_i noNumber
    split at failed
    · cases failed
    · rename_i unknown
      cases failed
      refine ⟨noNumber, ?_, rfl⟩
      intro member
      obtain ⟨pair, isPair, same⟩ := List.mem_map.mp member
      simpa [same] using List.lookup_eq_none_iff.mp unknown pair isPair

theorem of_literalOperand_error (failed : literalOperand table text = .error fault) :
    IsUnreadable .literal text ∧ fault = .invalidOperand .literal (String.ofList text) := by
  unfold literalOperand at failed
  split at failed
  · rename_i body
    split at failed
    · cases failed
    · rename_i noString
      cases failed
      refine ⟨⟨by simp, ?_, fun _ => ⟨noString, by simp⟩⟩, rfl⟩
      simp [Text.word?, Text.natural?, Text.digits?, Char.isDigit]
  · cases failed
  · rename_i noQuote noSymbol
    rcases except_bind_eq_error.mp failed with unread | ⟨_, _, impossible⟩
    · obtain ⟨noNumber, rfl⟩ := of_numberOperand_error unread
      refine ⟨⟨by simp, noNumber, fun _ => ⟨?_, noSymbol⟩⟩, rfl⟩
      unfold string?
      split
      · exact absurd rfl (noQuote _)
      · rfl
    · cases impossible

/-- An operand that is not read is a jump to nowhere, or else it is not spelled like an operand. -/
theorem of_operand_error {kind : OperandKind}
    (failed : operand labels table kind text = .error fault) :
    kind = .ip ∧ Text.word? text = none ∧ String.ofList text ∉ labels.map (·.1) ∧
        fault = .undefinedLabel (String.ofList text) ∨
      IsUnreadable kind text ∧ fault = .invalidOperand kind (String.ofList text) := by
  unfold operand at failed
  split at failed
  · exact .inl ⟨rfl, of_jumpOperand_error (except_map_eq_error.mp failed)⟩
  · exact .inr (of_literalOperand_error failed)
  · rename_i noJump noLiteral
    obtain ⟨noNumber, rfl⟩ := of_numberOperand_error (except_map_eq_error.mp failed)
    exact .inr ⟨⟨noJump, noNumber, fun isLiteral => absurd isLiteral noLiteral⟩, rfl⟩

theorem of_operands_error {line : Nat} {slots : List (OperandKind × Token)}
    (failed : operands labels line table slots = .error failure) :
    ∃ slot ∈ slots, ∃ table fault, operand labels table slot.1 slot.2.text = .error fault ∧
      failure = .refused line slot.2.column fault := by
  induction slots generalizing table with
  | nil => cases failed
  | cons slot rest inductionHypothesis =>
    rw [operands] at failed
    split at failed
    · rename_i fault refused
      cases failed
      exact ⟨slot, List.mem_cons_self, table, fault, refused, rfl⟩
    · rcases except_bind_eq_error.mp failed with further | ⟨_, _, impossible⟩
      · obtain ⟨other, member, refused⟩ := inductionHypothesis further
        exact ⟨other, List.mem_cons_of_mem _ member, refused⟩
      · cases impossible

/-- A statement without an instruction has a token at fault. -/
theorem of_instruction_error {found : List Token} {statement : Statement}
    (earlier : List String) (parts : instructionTokens found = statement.parts)
    (known : String.ofList statement.head.text = statement.opcode.mnemonic)
    (failed : statement.instruction labels table = .error failure) :
    ∃ token fault, failure = .refused statement.line token.column fault ∧
      IsAtFault earlier (labels.map (·.1)) found token fault := by
  unfold Statement.instruction at failed
  dsimp only at failed
  split at failed
  · rcases except_bind_eq_error.mp failed with refused | ⟨_, _, impossible⟩
    · obtain ⟨⟨kind, token⟩, slot, _, fault, unread, rfl⟩ := of_operands_error refused
      refine ⟨token, fault, rfl, ?_⟩
      rcases of_operand_error unread with ⟨rfl, noNumber, unknown, rfl⟩ | ⟨unreadable, rfl⟩
      · exact .undefinedLabel parts known slot noNumber unknown
      · exact .invalidOperand parts known slot unreadable
    · cases impossible
  · rename_i differs
    cases failed
    exact ⟨statement.head, _, rfl, .operandCount parts known differs⟩

theorem of_instructions_error {statements : List Statement}
    (failed : instructions labels table statements = .error failure) :
    ∃ statement ∈ statements, ∃ table, statement.instruction labels table = .error failure := by
  induction statements generalizing table with
  | nil => cases failed
  | cons first rest inductionHypothesis =>
    rw [instructions] at failed
    rcases except_bind_eq_error.mp failed with here | ⟨_, _, more⟩
    · exact ⟨first, List.mem_cons_self, table, here⟩
    · rcases except_bind_eq_error.mp more with further | ⟨_, _, impossible⟩
      · obtain ⟨statement, member, refused⟩ := inductionHypothesis further
        exact ⟨statement, List.mem_cons_of_mem _ member, refused⟩
      · cases impossible

/-- A failure of the second pass has a place. -/
theorem isPlaced_of_instructions {source : String} {outline : Outline}
    (isOutline : outlineOf source = .ok outline)
    (failed : instructions outline.labels table outline.statements = .error failure) :
    failure.IsPlaced source := by
  -- The first pass has passed every line, so the labels are those of the whole source.
  obtain ⟨rows, areRows, labels, statements, _⟩ := rows_of_outlineOf isOutline
  obtain ⟨statement, member, _, refused⟩ := of_instructions_error failed
  rw [statements] at member
  obtain ⟨row, isRow, content⟩ := List.mem_filterMap.mp member
  obtain ⟨⟨text, index⟩, isLine, found, areTokens, _, parts, isStatement⟩ :=
    exists_of_forall₂ areRows isRow
  obtain ⟨isNumber, known⟩ := isStatement statement content
  rw [content] at parts
  obtain ⟨token, fault, rfl, isAtFault⟩ := of_instruction_error
    (definedLabels ((Text.lines source.toList).take index)) parts known refused
  rw [labels, names_rowLabels, labels_of_areOutlined areRows, List.zipIdx_map_fst] at isAtFault
  rw [isNumber]
  exact isPlaced_of_isAtFault (hasLine_of_mem isLine) areTokens isAtFault

end SecondPass

section Encoding

variable {source : String} {failure : AssemblyError}

/-- Only the stack depth keeps the instructions of a listing from being encoded. -/
theorem overflowsAt_of_encode {outline : Outline} {shown : List Instruction}
    {literals : LiteralTable} {cause : EncodeError} (isOutline : outlineOf source = .ok outline)
    (areRead : instructions outline.labels [] outline.statements = .ok (shown, literals))
    (failed : CodeBlock.encode shown = .error cause) :
    ∃ first, OverflowsAt source first ∧ cause.cause = .stackOverflow first.mnemonic := by
  obtain ⟨before, first, after, rfl, encodable, broken, isCause⟩ :=
    CodeBlock.breaksAt_of_encode failed
  obtain ⟨statement, _, isRead⟩ :=
    exists_of_forall₂ (of_instructions_ok areRead) (b := first) (by simp)
  refine ⟨first, ⟨outline, literals, before, after, isOutline, areRead, encodable, broken⟩, ?_⟩
  rw [isCause, refusal, if_pos isRead.wellFormed]

theorem OverflowsAt.place?_eq_none {first : Instruction} (overflows : OverflowsAt source first)
    (failed : assemble source = .error failure) : failure.place? = none := by
  obtain ⟨outline, literals, before, after, isOutline, areRead, _⟩ := overflows
  rw [assemble_of_passes isOutline areRead] at failed
  split at failed
  · cases failed
    rfl
  · cases failed

theorem AssemblyError.IsPlaced.place?_isSome (isPlaced : failure.IsPlaced source) :
    failure.place?.isSome := by
  cases isPlaced <;> rfl

/-- A failure is one of the two passes, or else one of the encoder. -/
theorem isPlaced_or_overflowsAt (failed : assemble source = .error failure) :
    failure.IsPlaced source ∨ ∃ first, OverflowsAt source first ∧
      failure.message = s!"stack effect of {first.mnemonic} overflows" := by
  rcases except_bind_eq_error.mp failed with firstPass | ⟨outline, isOutline, more⟩
  · exact .inl (isPlaced_of_outlineOf firstPass)
  · rcases except_bind_eq_error.mp more with secondPass | ⟨⟨shown, literals⟩, areRead, encoding⟩
    · exact .inl (isPlaced_of_instructions isOutline secondPass)
    · right
      dsimp only at encoding
      split at encoding
      · rename_i cause unencoded
        cases encoding
        obtain ⟨first, overflows, isCause⟩ := overflowsAt_of_encode isOutline areRead unencoded
        exact ⟨first, overflows, congrArg CodeError.message isCause⟩
      · cases encoding

/--
A failure of either pass names the line of the source, counted from one, and the column, one more
than the bytes in front of it, of the token that is at fault. The only failures without a place are
those of the encoder, when both passes have succeeded and the stack depth overflows at an
instruction, which the message names.
-/
theorem assemble_failure_place (failed : assemble source = .error failure) :
    (failure.place?.isSome → failure.IsPlaced source) ∧
    (failure.place? = none ↔ ∃ first, OverflowsAt source first ∧
      failure.message = s!"stack effect of {first.mnemonic} overflows") := by
  refine ⟨?_, ?_, ?_⟩
  · intro hasPlace
    rcases isPlaced_or_overflowsAt failed with isPlaced | ⟨first, overflows, _⟩
    · exact isPlaced
    · simp [overflows.place?_eq_none failed] at hasPlace
  · intro noPlace
    rcases isPlaced_or_overflowsAt failed with isPlaced | overflows
    · have hasPlace := isPlaced.place?_isSome
      simp [noPlace] at hasPlace
    · exact overflows
  · intro ⟨first, overflows, _⟩
    exact overflows.place?_eq_none failed

/-- A jump to no line has the column behind the label of its line, and too many slots have none. -/
theorem assemble_failure_place_overflow :
    let jump := "ret\n é: goto three, # here\nthere:"
    let slots := "make_array 9223372036854775808"
    (∃ failure, assemble jump = .error failure ∧
      failure.message = "line 2:11: undefined label: three" ∧ failure.IsPlaced jump) ∧
    ∃ failure, assemble slots = .error failure ∧
      failure.message = "stack effect of make_array overflows" ∧
      ∃ first, OverflowsAt slots first ∧
        failure.message = s!"stack effect of {first.mnemonic} overflows" := by
  intro jump slots
  have jumps : assemble jump = .error (.refused 2 11 (.undefinedLabel "three")) := by
    decide +kernel
  have overflows : assemble slots = .error (.unencodable (.rejected 0
      ⟨.makeArray, [9223372036854775808]⟩ (.stackOverflow "make_array"))) := by
    decide +kernel
  refine ⟨⟨_, jumps, by decide +kernel, (assemble_failure_place jumps).1 rfl⟩, ?_⟩
  exact ⟨_, overflows, by decide +kernel, (assemble_failure_place overflows).2.mp rfl⟩

end Encoding

end Listing

end CompiledCode
