import CompiledCode.Proofs.Code.StackDepth
import CompiledCode.Proofs.Listing.Extent
import CompiledCode.Proofs.Listing.Interning
import CompiledCode.Proofs.Listing.Reassembly
import CompiledCode.Proofs.Text.Utf8RoundTrip

/-!
Every text can be written as a literal of a listing. Its quotes and escapes are read in two ways,
once to find the end of the token and once to find the characters, and both end at the same mark.
-/

namespace CompiledCode.Listing

/-- A character as it is written between quotes. -/
def escapedChar : Char → List Char
  | '\\' => ['\\', '\\']
  | '"' => ['\\', '"']
  | '\n' => ['\\', 'n']
  | '\t' => ['\\', 't']
  | '\x00' => ['\\', '0']
  | c => [c]

/-- The characters of a text as they are written between quotes. -/
def escapedText (text : List Char) : List Char := text.flatMap escapedChar

/-- A text between quotes. -/
def quoted (text : String) : String :=
  String.ofList ('"' :: (escapedText text.toList ++ ['"']))

/-- The line of a listing that pushes a text. -/
def pushLine (text : String) : String := "push_literal " ++ quoted text

/-- The literal that a text is. -/
def Literal.ofText (text : String) : Literal := .string (Text.Utf8.encode text)

theorem Literal.ofText_injective : Function.Injective ofText := fun _ _ same =>
  Text.Utf8.encode_injective (Literal.string.inj same)

section Escapes

/-- A character stands for itself, or a backslash and a character stand for it. -/
theorem escapedChar_cases (c : Char) :
    (c ≠ '\\' ∧ c ≠ '"' ∧ c ≠ '\n' ∧ escapedChar c = [c]) ∨
      ∃ d, escapedChar c = ['\\', d] ∧ escaped? d = some c ∧ d ≠ '\n' := by
  unfold escapedChar
  split
  · exact .inr ⟨'\\', rfl, rfl, by decide⟩
  · exact .inr ⟨'"', rfl, rfl, by decide⟩
  · exact .inr ⟨'n', rfl, rfl, by decide⟩
  · exact .inr ⟨'t', rfl, rfl, by decide⟩
  · exact .inr ⟨'0', rfl, rfl, by decide⟩
  · exact .inl ⟨‹_›, ‹_›, ‹_›, rfl⟩

theorem not_mem_escapedText (text : List Char) : '\n' ∉ escapedText text := by
  intro member
  obtain ⟨c, _, inside⟩ := List.mem_flatMap.mp member
  rcases escapedChar_cases c with ⟨_, _, noFeed, same⟩ | ⟨d, same, _, noFeed⟩
  · rw [same] at inside
    exact noFeed (List.mem_singleton.mp inside).symm
  · rw [same] at inside
    simp at inside
    exact noFeed inside.symm

/-- The escapes stand for the characters that they are written for. -/
theorem unescape?_escapedText (text : List Char) : unescape? (escapedText text) = some text := by
  induction text with
  | nil => rfl
  | cons c rest inductionHypothesis =>
    rw [escapedText, List.flatMap_cons]
    rcases escapedChar_cases c with ⟨noBackslash, _, _, same⟩ | ⟨d, same, isEscape, _⟩
    · rw [same, List.singleton_append, unescape?]
      · exact congrArg (Option.map (c :: ·)) inductionHypothesis
      · simp [noBackslash]
      · simp [noBackslash]
    · rw [same]
      change unescape? ('\\' :: d :: escapedText rest) = _
      rw [unescape?, isEscape, inductionHypothesis]
      rfl

theorem string?_quoted (text : String) :
    string? (quoted text).toList = some (Text.Utf8.encode text) := by
  rw [quoted, String.toList_ofList, string?, if_pos List.getLast?_concat, List.dropLast_concat,
    unescape?_escapedText]
  rfl

end Escapes

section Scanning

/-- The quotes stay open over a character that is written between them. -/
theorem tokensFrom_escapedChar (c : Char) (column start : Nat) (reversed rest : List Char) :
    ∃ next, tokensFrom column (.quoted start reversed false) (escapedChar c ++ rest) =
      tokensFrom next (.quoted start ((escapedChar c).reverse ++ reversed) false) rest := by
  rcases escapedChar_cases c with ⟨noBackslash, noQuote, _, same⟩ | ⟨d, same, _⟩
  · rw [same]
    refine ⟨column + c.utf8Size, ?_⟩
    simp [tokensFrom, LineState.push, noBackslash, noQuote]
  · rw [same]
    refine ⟨column + '\\'.utf8Size + d.utf8Size, ?_⟩
    simp [tokensFrom, LineState.push]

theorem tokensFrom_escapedText (text : List Char) (column start : Nat)
    (reversed rest : List Char) :
    ∃ next, tokensFrom column (.quoted start reversed false) (escapedText text ++ rest) =
      tokensFrom next (.quoted start ((escapedText text).reverse ++ reversed) false) rest := by
  induction text generalizing column reversed with
  | nil => exact ⟨column, rfl⟩
  | cons c text inductionHypothesis =>
    obtain ⟨middle, first⟩ :=
      tokensFrom_escapedChar c column start reversed (escapedText text ++ rest)
    obtain ⟨next, more⟩ := inductionHypothesis middle ((escapedChar c).reverse ++ reversed)
    refine ⟨next, ?_⟩
    rw [escapedText, List.flatMap_cons, List.append_assoc]
    refine (first.trans more).trans ?_
    rw [List.reverse_append, List.append_assoc]
    rfl

/-- A quoted text at the end of a line is one token. -/
theorem tokensFrom_quoted (text : String) (column : Nat) :
    tokensFrom column .between (quoted text).toList = .ok [⟨column, (quoted text).toList⟩] := by
  rw [quoted, String.toList_ofList]
  obtain ⟨next, inside⟩ := tokensFrom_escapedText text.toList (column + '"'.utf8Size) column
    ['"'] ['"']
  calc tokensFrom column .between ('"' :: (escapedText text.toList ++ ['"']))
      = tokensFrom (column + '"'.utf8Size) (.quoted column ['"'] false)
          (escapedText text.toList ++ ['"']) := rfl
    _ = tokensFrom next (.quoted column ((escapedText text.toList).reverse ++ ['"']) false)
          ['"'] := inside
    _ = .ok (lastToken column ('"' :: ((escapedText text.toList).reverse ++ ['"']))) := rfl
    _ = .ok [⟨column, '"' :: (escapedText text.toList ++ ['"'])⟩] := by
      have untrimmed : Text.trimEnd ('"' :: (escapedText text.toList ++ ['"'])) =
          '"' :: (escapedText text.toList ++ ['"']) :=
        Text.trimEnd_concat rfl ('"' :: escapedText text.toList)
      simp [lastToken, untrimmed]

theorem toList_pushLine (text : String) : (pushLine text).toList =
    Opcode.pushLiteral.mnemonic.toList ++ ' ' :: (quoted text).toList := by
  have word : "push_literal ".toList = Opcode.pushLiteral.mnemonic.toList ++ [' '] := by
    decide +kernel
  rw [pushLine, String.toList_append, word, List.append_assoc, List.singleton_append]

theorem tokens_pushLine (text : String) :
    ∃ first second, tokens (pushLine text).toList =
      .ok [⟨first, Opcode.pushLiteral.mnemonic.toList⟩, ⟨second, (quoted text).toList⟩] := by
  obtain ⟨next, opened⟩ := tokensFrom_bare Opcode.pushLiteral.mnemonic_isBare 1
    (' ' :: (quoted text).toList)
  refine ⟨1, next + ' '.utf8Size, ?_⟩
  rw [tokens, toList_pushLine, opened, tokensFrom, if_neg (by decide),
    if_pos (show isSeparator ' ' = true from rfl), tokensFrom_quoted, List.reverse_reverse]
  rfl

/-- No line ends within a line that pushes a text, and no carriage return stands at its end. -/
theorem lines_pushLines (texts : List String) :
    Text.lines (String.join (texts.map fun text => pushLine text ++ "\n")).toList =
      texts.map fun text => (pushLine text).toList := by
  have terminated : (String.join (texts.map fun text => pushLine text ++ "\n")).toList =
      (texts.map fun text => (pushLine text).toList).flatMap (· ++ ['\n']) := by
    simp [String.toList_join, List.flatMap_map]
  rw [terminated, Text.lines_terminated]
  · rw [List.map_map]
    apply List.map_congr_left
    intro text _
    have last : (pushLine text).toList.getLast? = some '"' := by
      rw [toList_pushLine, quoted, String.toList_ofList, ← List.cons_append, ← List.cons_append,
        ← List.append_assoc]
      exact List.getLast?_concat
    simp [Text.dropReturn, last]
  · intro body member
    obtain ⟨text, _, rfl⟩ := List.mem_map.mp member
    rw [toList_pushLine, quoted, String.toList_ofList]
    simp [not_mem_escapedText]
    decide

theorem length_le_flatten_pushLines (texts : List String) :
    texts.length ≤ (texts.map fun text => (pushLine text).toList).flatten.length := by
  induction texts with
  | nil => simp
  | cons text texts inductionHypothesis =>
    have filled : 0 < (pushLine text).toList.length := by
      rw [toList_pushLine, List.length_append, List.length_cons]
      omega
    simp only [List.map_cons, List.flatten_cons, List.length_append, List.length_cons]
    omega

/-- A listing has no more lines than bytes. -/
theorem length_le_of_pushLines {texts : List String} {source : String}
    (isListing : Text.lines source.toList = texts.map fun text => (pushLine text).toList) :
    texts.length ≤ (Text.Utf8.encode source).length := by
  have inside := (Text.flatten_lines_sublist source.toList).length_le
  rw [isListing] at inside
  have lines := length_le_flatten_pushLines texts
  have bytes : source.toList.length ≤ (Text.Utf8.encode source).length :=
    length_le_byteCount source.toList
  omega

end Scanning

section Passes

/-- A statement pushes a text. -/
def Statement.Pushes (statement : Statement) (text : String) : Prop :=
  statement.opcode = .pushLiteral ∧
    statement.arguments.map Token.text = [(quoted text).toList]

theorem Outline.addLine_pushLine (outline : Outline) (line : Nat) (text : String) :
    ∃ statement : Statement, statement.Pushes text ∧
      outline.addLine line (pushLine text).toList = .ok ⟨outline.offset + 2, outline.labels,
        statement :: outline.reversed⟩ := by
  obtain ⟨first, second, isFound⟩ := tokens_pushLine text
  have noLabel : Token.label? ⟨first, Opcode.pushLiteral.mnemonic.toList⟩ = none := by
    have noColon : Opcode.pushLiteral.mnemonic.toList.getLast? ≠ some ':' := by decide +kernel
    simp [Token.label?, noColon]
  have isMnemonic : Token.text ⟨first, Opcode.pushLiteral.mnemonic.toList⟩ =
      Opcode.pushLiteral.mnemonic.toList := rfl
  refine ⟨⟨line, ⟨first, Opcode.pushLiteral.mnemonic.toList⟩, .pushLiteral,
    [⟨second, (quoted text).toList⟩]⟩, ?_, ?_⟩
  · simp [Statement.Pushes]
  · rw [addLine, isFound]
    dsimp only
    rw [noLabel]
    exact outline.add_mnemonic line isMnemonic [⟨second, (quoted text).toList⟩]

/-- The first pass adds a statement for each line and no label. -/
theorem foldlM_pushLines (texts : List String) (outline : Outline) (index : Nat) :
    ∃ statements last, List.Forall₂ Statement.Pushes statements texts ∧
      ((texts.map fun text => (pushLine text).toList).zipIdx index).foldlM
        (fun outline (text, index) => outline.addLine (index + 1) text) outline = .ok last ∧
      last.statements = outline.statements ++ statements := by
  induction texts generalizing outline index with
  | nil => exact ⟨[], outline, .nil, rfl, (List.append_nil _).symm⟩
  | cons text texts inductionHypothesis =>
    obtain ⟨statement, pushes, added⟩ := outline.addLine_pushLine (index + 1) text
    obtain ⟨statements, last, others, passed, all⟩ := inductionHypothesis
      ⟨outline.offset + 2, outline.labels, statement :: outline.reversed⟩ (index + 1)
    refine ⟨statement :: statements, last, .cons pushes others, ?_, ?_⟩
    · rw [List.map_cons, List.zipIdx_cons, List.foldlM_cons]
      dsimp only
      rw [added]
      exact passed
    · rw [all]
      simp [Outline.statements]

variable (labels : Labels)

/-- A statement that pushes a text interns the literal that the text is. -/
theorem Statement.instruction_of_pushes (table : LiteralTable) {statement : Statement}
    {text : String} (pushes : statement.Pushes text) :
    statement.instruction labels table =
      .ok (⟨.pushLiteral, [.ofNat (table.intern (.ofText text)).1]⟩,
        (table.intern (.ofText text)).2) := by
  obtain ⟨isPush, texts⟩ := pushes
  obtain ⟨argument, arguments, same, isQuoted, none⟩ := List.map_eq_cons_iff.mp texts
  obtain rfl := List.map_eq_nil_iff.mp none
  have isOperand : operand labels table .literal argument.text =
      .ok (.ofNat (table.intern (.ofText text)).1, (table.intern (.ofText text)).2) := by
    have isString := string?_quoted text
    rw [isQuoted, operand]
    rw [quoted, String.toList_ofList] at isString ⊢
    rw [literalOperand, isString]
    rfl
  rw [Statement.instruction, isPush, same]
  change operands labels statement.line table [(.literal, argument)] >>= _ = _
  rw [operands, isOperand]
  rfl

/-- The second pass numbers the literals that the texts are, after those in front of them. -/
theorem instructions_of_pushes {statements : List Statement} {texts : List String}
    (push : List.Forall₂ Statement.Pushes statements texts) (before : List Literal) :
    instructions labels before.eraseDups statements =
      .ok (texts.map fun text => ⟨.pushLiteral,
          [.ofNat ((before ++ texts.map Literal.ofText).eraseDups.idxOf (.ofText text))]⟩,
        (before ++ texts.map Literal.ofText).eraseDups) := by
  -- The table is always that of the literals so far, and the index of one stays when more come.
  induction push generalizing before with
  | nil => simp [instructions]
  | @cons statement text statements texts pushes _ inductionHypothesis =>
    have others := inductionHypothesis (before ++ [Literal.ofText text])
    have known : Literal.ofText text ∈ before ++ [Literal.ofText text] := by simp
    have stays := idxOf_eraseDups_append known (texts.map Literal.ofText)
    rw [List.append_assoc, List.singleton_append] at others stays
    rw [instructions, Statement.instruction_of_pushes labels _ pushes,
      LiteralTable.intern_eraseDups]
    change instructions labels _ statements >>= _ = _
    rw [others, List.map_cons, List.map_cons, stays]
    rfl

/-- The literals of texts, each once. -/
def textTable (texts : List String) : LiteralTable := (texts.map Literal.ofText).eraseDups

/-- The instruction that pushes the literal of a text in a table. -/
def pushOf (table : LiteralTable) (text : String) : Instruction :=
  ⟨.pushLiteral, [.ofNat (table.idxOf (.ofText text))]⟩

theorem assemble_of_pushLines {texts : List String} {source : String}
    (isListing : Text.lines source.toList = texts.map fun text => (pushLine text).toList) :
    ∃ labels, assemble source =
      match CodeBlock.encode (texts.map (pushOf (textTable texts))) with
      | .error failure => .error (.unencodable failure)
      | .ok code => .ok ⟨texts.map (pushOf (textTable texts)), code, textTable texts, labels⟩ := by
  obtain ⟨statements, outline, push, passed, all⟩ := foldlM_pushLines texts ⟨0, [], []⟩ 0
  rw [← isListing] at passed
  have areRead := instructions_of_pushes outline.labels push []
  rw [List.nil_append, show statements = outline.statements from all.symm] at areRead
  exact ⟨outline.labels, assemble_of_passes passed areRead⟩

end Passes

section Depth

open Instruction

variable {shown : List Instruction}

theorem depthAfter_eq_length (rises : ∀ instruction ∈ shown, instruction.gain = 1) :
    depthAfter shown = shown.length := by
  rw [depthAfter, List.map_congr_left rises]
  simp

/-- Instructions that each add one slot reach the depth of their number. -/
theorem isEncodable_iff_of_gain (countable : ∀ instruction ∈ shown, instruction.IsCountable)
    (rises : ∀ instruction ∈ shown, instruction.gain = 1) :
    IsEncodable shown ↔ shown.length < 2 ^ 63 := by
  constructor
  · intro encodable
    have last := (encodable.inRange _ ⟨shown, List.prefix_refl _, rfl⟩).2
    rw [depthAfter_eq_length rises] at last
    omega
  · intro few
    refine ⟨countable, ?_⟩
    rintro depth ⟨before, isFront, rfl⟩
    have count := isFront.length_le
    rw [depthAfter_eq_length fun instruction member => rises instruction (isFront.subset member)]
    omega

/-- The lines of a listing have an encoding as long as their number has 63 bits. -/
theorem exists_encode_pushOf_iff (texts : List String) (table : LiteralTable) :
    (∃ code, CodeBlock.encode (texts.map (pushOf table)) = .ok code) ↔
      texts.length < 2 ^ 63 := by
  rw [CodeBlock.exists_encode_iff, isEncodable_iff_of_gain, List.length_map]
  · rw [List.forall_mem_map]
    intro text _
    exact ⟨rfl, Nat.zero_le _, show 1 ≤ 2 ^ 63 - 1 by decide⟩
  · rw [List.forall_mem_map]
    intro text _
    rfl

end Depth

/-- The operand is the place of the text, which is below the number of texts. -/
theorem getElem?_textTable {texts : List String} (few : texts.length < 2 ^ 63) {text : String}
    (member : text ∈ texts) :
    (textTable texts)[(UInt64.ofNat ((textTable texts).idxOf (.ofText text))).toNat]? =
      some (.ofText text) := by
  have known : Literal.ofText text ∈ textTable texts :=
    List.mem_eraseDups.mpr (List.mem_map_of_mem member)
  have inside := List.idxOf_lt_length_iff.mpr known
  have count : (textTable texts).length ≤ texts.length := by
    have shorter := length_eraseDups_le (texts.map Literal.ofText)
    rwa [List.length_map] at shorter
  have fits : (textTable texts).idxOf (.ofText text) < 2 ^ 64 := by omega
  rw [UInt64.toNat_ofNat_of_lt' fits, List.getElem?_idxOf known]

/--
A listing whose lines push texts is assembled as long as the depth of the stack, which is the number
of lines, has 63 bits, and the lines are no more than the bytes of the source. The literals are the
texts without repetitions, in the order of their first use, and each instruction has the index at
which the table holds the text of its line.
-/
theorem assemble_pushLines (texts : List String) :
    Text.lines (String.join (texts.map fun text => pushLine text ++ "\n")).toList =
        texts.map (fun text => (pushLine text).toList) ∧
      ∀ source, Text.lines source.toList = texts.map (fun text => (pushLine text).toList) →
        ((∃ assembly, assemble source = .ok assembly) ↔ texts.length < 2 ^ 63) ∧
        texts.length ≤ (Text.Utf8.encode source).length ∧
        ∀ assembly, assemble source = .ok assembly →
          assembly.literals =
            texts.eraseDups.map (fun text => .string (Text.Utf8.encode text)) ∧
          assembly.literals.Nodup ∧
          List.Forall₂ (fun text instruction => ∃ index : UInt64,
            instruction = ⟨.pushLiteral, [index]⟩ ∧
            assembly.literals[index.toNat]? = some (.string (Text.Utf8.encode text)))
            texts assembly.instructions := by
  refine ⟨lines_pushLines texts, ?_⟩
  intro source isListing
  obtain ⟨labels, assembled⟩ := assemble_of_pushLines isListing
  have areEncodable := exists_encode_pushOf_iff texts (textTable texts)
  cases encoded : CodeBlock.encode (texts.map (pushOf (textTable texts))) with
  | error failure =>
    rw [encoded] at assembled areEncodable
    have fails : ∀ assembly, assemble source ≠ .ok assembly := by simp [assembled]
    refine ⟨⟨?_, ?_⟩, length_le_of_pushLines isListing, ?_⟩
    · intro ⟨assembly, success⟩
      exact absurd success (fails assembly)
    · intro few
      simpa using areEncodable.mpr few
    · intro assembly success
      exact absurd success (fails assembly)
  | ok code =>
    rw [encoded] at assembled areEncodable
    have few := areEncodable.mp ⟨code, rfl⟩
    refine ⟨⟨fun _ => few, fun _ => ⟨_, assembled⟩⟩, length_le_of_pushLines isListing, ?_⟩
    intro assembly success
    cases assembled.symm.trans success
    refine ⟨eraseDups_map Literal.ofText_injective texts, nodup_eraseDups _, ?_⟩
    rw [List.forall₂_map_right_iff, List.forall₂_same]
    intro text member
    exact ⟨_, rfl, getElem?_textTable few member⟩

/-- A text with a number sign and a quote comes twice, around the empty text. -/
theorem assemble_pushLines_repeated :
    let texts := ["#\"", "", "#\""]
    let source := "push_literal \"#\\\"\"\r\npush_literal \"\"\npush_literal \"#\\\"\""
    Text.lines source.toList = texts.map (fun text => (pushLine text).toList) ∧
      ∃ assembly, assemble source = .ok assembly ∧ assembly.code.words = [6, 0, 6, 1, 6, 0] ∧
        assembly.literals = ["#\"", ""].map (fun text => .string (Text.Utf8.encode text)) ∧
        assembly.literals.Nodup := by
  intro texts source
  have isListing : Text.lines source.toList = texts.map fun text => (pushLine text).toList := by
    decide +kernel
  have success : assemble source = .ok
      ⟨[⟨.pushLiteral, [0]⟩, ⟨.pushLiteral, [1]⟩, ⟨.pushLiteral, [0]⟩], ⟨[6, 0, 6, 1, 6, 0], 3⟩,
        [.ofText "#\"", .ofText ""], []⟩ := by
    decide +kernel
  obtain ⟨_, _, holds⟩ := (assemble_pushLines texts).2 source isListing
  obtain ⟨literals, distinct, _⟩ := holds _ success
  exact ⟨isListing, _, success, rfl, literals, distinct⟩

end CompiledCode.Listing
