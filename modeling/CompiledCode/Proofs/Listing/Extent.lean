import CompiledCode.Listing.Assembly
import CompiledCode.Proofs.Code.EncodingRoundTrip
import CompiledCode.Proofs.Outcomes
import Mathlib.Data.List.Flatten
import Mathlib.Data.List.Induction

/-!
What a listing is assembled to is no larger than its text: the tokens are parts of the text, every
word of the code comes from a token, and so does every literal.
-/

namespace CompiledCode

namespace Text

theorem flatten_pieces_sublist (separator : Char → Bool) (text : List Char) :
    (pieces separator text).flatten.Sublist text := by
  induction text with
  | nil => exact List.Sublist.refl []
  | cons c rest inductionHypothesis =>
    rw [pieces]
    split
    · exact inductionHypothesis.cons c
    · cases found : pieces separator rest with
      | nil => exact (List.nil_sublist rest).cons_cons c
      | cons piece others =>
        rw [found] at inductionHypothesis
        exact inductionHypothesis.cons_cons c

theorem dropReturn_sublist (line : List Char) : (dropReturn line).Sublist line := by
  rw [dropReturn]
  split
  · exact List.dropLast_sublist line
  · exact List.Sublist.refl line

/-- The lines are parts of the text one behind another. -/
theorem flatten_lines_sublist (text : List Char) : (lines text).flatten.Sublist text := by
  refine List.Sublist.trans ?_ (flatten_pieces_sublist (· == '\n') text)
  unfold lines
  dsimp only
  generalize pieces (· == '\n') text = all
  rw [List.flatten_append]
  cases all using List.reverseRecOn with
  | nil => exact List.Sublist.refl []
  | append_singleton before last =>
    have bodies : (before.map dropReturn).flatten.Sublist before.flatten := by
      have each := List.Sublist.flatMap_right before fun line _ => dropReturn_sublist line
      rwa [List.flatMap_id'] at each
    rw [List.dropLast_concat, List.getLast?_concat, Option.getD_some, List.flatten_append,
      List.flatten_singleton]
    refine bodies.append ?_
    split
    · exact List.nil_sublist last
    · rw [List.flatten_singleton]

theorem dropEndWhile_sublist (test : Char → Bool) (text : List Char) :
    (dropEndWhile test text).Sublist text := by
  have kept := (List.dropWhile_sublist test (l := text.reverse)).reverse
  rwa [List.reverse_reverse] at kept

end Text

namespace Listing

/-- The tokens have characters of their own in the text, one behind another. -/
structure Fits (found : List Token) (text : List Char) : Prop where
  sublist : (found.flatMap Token.text).Sublist text
  filled : ∀ token ∈ found, token.text ≠ []

namespace Fits

variable {found others : List Token} {text more : List Char}

theorem nil (text : List Char) : Fits [] text := ⟨List.nil_sublist text, List.forall_mem_nil _⟩

theorem append (first : Fits found text) (second : Fits others more) :
    Fits (found ++ others) (text ++ more) := by
  refine ⟨?_, List.forall_mem_append.mpr ⟨first.filled, second.filled⟩⟩
  rw [List.flatMap_append]
  exact first.sublist.append second.sublist

theorem mono (fits : Fits found text) (isPart : text.Sublist more) : Fits found more :=
  ⟨fits.sublist.trans isPart, fits.filled⟩

theorem tail {first : Token} (fits : Fits (first :: found) text) : Fits found text := by
  refine ⟨List.Sublist.trans ?_ fits.sublist, (List.forall_mem_cons.mp fits.filled).2⟩
  exact List.sublist_append_right _ _

/-- Every token takes a character at least. -/
theorem length_le (fits : Fits found text) : found.length ≤ text.length := by
  induction found generalizing text with
  | nil => exact Nat.zero_le _
  | cons first rest inductionHypothesis =>
    obtain ⟨firstFilled, _⟩ := List.forall_mem_cons.mp fits.filled
    have characters := fits.sublist.length_le
    have rest := inductionHypothesis ⟨List.Sublist.refl _, fits.tail.filled⟩
    have one := List.length_pos_iff.mpr firstFilled
    rw [List.flatMap_cons, List.length_append] at characters
    rw [List.length_cons]
    omega

theorem sublist_of_mem (fits : Fits found text) {token : Token} (member : token ∈ found) :
    token.text.Sublist text :=
  (List.sublist_flatten_of_mem (List.mem_map_of_mem member)).trans fits.sublist

end Fits

section Lines

/-- The characters of the token that is open. -/
def LineState.text : LineState → List Char
  | between => []
  | word _ reversed | quoted _ reversed _ => reversed.reverse

/-- A token is open only when it has characters. -/
def LineState.Opened : LineState → Prop
  | between => True
  | word _ reversed | quoted _ reversed _ => reversed ≠ []

theorem LineState.text_push (column : Nat) (c : Char) (state : LineState) :
    (state.push column c).text = state.text ++ [c] ∧ (state.push column c).Opened := by
  cases state with
  | between =>
    rw [push]
    split <;> exact ⟨rfl, List.cons_ne_nil _ _⟩
  | word start reversed =>
    rw [push]
    split <;> exact ⟨List.reverse_cons, List.cons_ne_nil _ _⟩
  | quoted start reversed escaped =>
    cases escaped with
    | true => exact ⟨List.reverse_cons, List.cons_ne_nil _ _⟩
    | false =>
      rw [push]
      split <;> exact ⟨List.reverse_cons, List.cons_ne_nil _ _⟩

theorem fits_lastToken (column : Nat) (reversed : List Char) :
    Fits (lastToken column reversed) reversed.reverse := by
  unfold lastToken
  dsimp only
  split
  · exact Fits.nil _
  · rename_i filled
    refine ⟨?_, List.forall_mem_singleton.mpr fun nothing => filled ?_⟩
    · rw [List.flatMap_singleton]
      exact Text.dropEndWhile_sublist _ _
    · rw [List.isEmpty_iff]
      exact nothing

theorem fits_tokensFrom {column : Nat} {state : LineState} {text : List Char} {found : List Token}
    (opened : state.Opened) (success : tokensFrom column state text = .ok found) :
    Fits found (state.text ++ text) := by
  induction text generalizing column state found with
  | nil =>
    rw [List.append_nil]
    cases state with
    | between =>
      cases success
      exact Fits.nil _
    | word start reversed =>
      cases success
      exact fits_lastToken start reversed
    | quoted => cases success
  | cons c rest inductionHypothesis =>
    have pushed : ∀ {found : List Token}, tokensFrom (column + c.utf8Size) (state.push column c) rest =
        .ok found → Fits found (state.text ++ c :: rest) := by
      intro found success
      obtain ⟨parts, stillOpened⟩ := state.text_push column c
      have fits := inductionHypothesis stillOpened success
      rwa [parts, List.append_assoc] at fits
    cases state with
    | between =>
      rw [tokensFrom] at success
      split at success
      · cases success
        exact Fits.nil _
      · split at success
        · exact (inductionHypothesis opened success).mono (List.sublist_cons_self _ _)
        · exact pushed success
    | word start reversed =>
      rw [tokensFrom] at success
      split at success
      · cases success
        exact (fits_lastToken start reversed).mono (List.sublist_append_left _ _)
      · split at success
        · obtain ⟨others, othersFound, rfl⟩ := except_map_eq_ok.mp success
          have fits : Fits others (LineState.between.text ++ rest) :=
            inductionHypothesis trivial othersFound
          have first : Fits [⟨start, reversed.reverse⟩] reversed.reverse := by
            refine ⟨?_, List.forall_mem_singleton.mpr ?_⟩
            · rw [List.flatMap_singleton]
            · exact fun nothing => opened (List.reverse_eq_nil_iff.mp nothing)
          exact first.append (fits.mono (List.sublist_cons_self _ _))
        · exact pushed success
    | quoted start reversed escaped =>
      rw [tokensFrom] at success
      exact pushed success

theorem fits_tokens {line : List Char} {found : List Token} (success : tokens line = .ok found) :
    Fits found line := by
  have fits : Fits found (LineState.between.text ++ line) := fits_tokensFrom trivial success
  exact fits

end Lines

section Statements

/-- The tokens of a statement, the name of its instruction first. -/
def Statement.parts (statement : Statement) : List Token := statement.head :: statement.arguments

/-- The tokens of all statements so far. -/
def Outline.parts (outline : Outline) : List Token := outline.statements.flatMap Statement.parts

theorem Outline.parts_add {outline next : Outline} {line : Nat} {found : List Token}
    (success : outline.add line found = .ok next) : next.parts = outline.parts ++ found := by
  cases found with
  | nil =>
    cases success
    rw [List.append_nil]
  | cons head arguments =>
    rw [add] at success
    split at success
    · cases success
    · cases success
      rw [Outline.parts, statements, List.reverse_cons, List.flatMap_append,
        List.flatMap_singleton]
      rfl

theorem Outline.parts_define {outline next : Outline} {line : Nat} {token : Token}
    {label : String} (success : outline.define line token label = .ok next) :
    next.parts = outline.parts := by
  rw [define] at success
  split at success
  · cases success
  · cases success
    rfl

/-- A line adds at most the tokens that it has. -/
theorem Outline.parts_addLine {outline next : Outline} {line : Nat} {text : List Char}
    (success : outline.addLine line text = .ok next) :
    ∃ kept, next.parts = outline.parts ++ kept ∧ Fits kept text := by
  unfold addLine at success
  split at success
  · cases success
  · cases success
    exact ⟨[], (List.append_nil _).symm, Fits.nil text⟩
  · rename_i first rest found
    have fits := fits_tokens found
    split at success
    · exact ⟨first :: rest, parts_add success, fits⟩
    · obtain ⟨middle, defined, added⟩ := except_bind_eq_ok.mp success
      refine ⟨rest, ?_, fits.tail⟩
      rw [parts_add added, parts_define defined]

theorem Outline.parts_foldlM {outline last : Outline} {texts : List (List Char × Nat)}
    (success : texts.foldlM (fun outline (text, index) => outline.addLine (index + 1) text)
      outline = .ok last) :
    ∃ kept, last.parts = outline.parts ++ kept ∧ Fits kept (texts.flatMap (·.1)) := by
  induction texts generalizing outline with
  | nil =>
    cases success
    exact ⟨[], (List.append_nil _).symm, Fits.nil _⟩
  | cons first rest inductionHypothesis =>
    rw [List.foldlM_cons] at success
    obtain ⟨next, added, more⟩ := except_bind_eq_ok.mp success
    obtain ⟨kept, keptEq, fits⟩ := parts_addLine added
    obtain ⟨others, othersEq, othersFit⟩ := inductionHypothesis more
    refine ⟨kept ++ others, ?_, fits.append othersFit⟩
    rw [othersEq, keptEq, List.append_assoc]

/-- The statements of a listing are made of parts of its text. -/
theorem fits_outlineOf {source : String} {outline : Outline}
    (success : outlineOf source = .ok outline) : Fits outline.parts source.toList := by
  obtain ⟨kept, keptEq, fits⟩ := Outline.parts_foldlM success
  rw [List.flatMap_def, List.zipIdx_map_fst] at fits
  have sameTokens : outline.parts = kept := keptEq
  rw [sameTokens]
  exact fits.mono (Text.flatten_lines_sublist _)

end Statements

section Operands

/-- The bytes that a literal holds. -/
def Literal.bytes : Literal → List UInt8
  | string bytes => bytes
  | symbol name => name

/-- The number of bytes of a text that is given by its characters. -/
def byteCount (text : List Char) : Nat := (text.flatMap String.utf8EncodeChar).length

theorem byteCount_cons (c : Char) (rest : List Char) :
    byteCount (c :: rest) = c.utf8Size + byteCount rest := by
  rw [byteCount, List.flatMap_cons, List.length_append, String.length_utf8EncodeChar, byteCount]

theorem byteCount_le {part whole : List Char} (isPart : part.Sublist whole) :
    byteCount part ≤ byteCount whole := (isPart.flatMap _).length_le

theorem length_le_byteCount (text : List Char) : text.length ≤ byteCount text := by
  induction text with
  | nil => exact Nat.le_refl 0
  | cons c rest inductionHypothesis =>
    have one := c.utf8Size_pos
    rw [byteCount_cons, List.length_cons]
    omega

/-- An escape stands for a character of one byte. -/
theorem utf8Size_of_escaped {c d : Char} (success : escaped? c = some d) : d.utf8Size = 1 := by
  unfold escaped? at success
  split at success <;> cases success <;> rfl

theorem byteCount_unescape {text plain : List Char} (success : unescape? text = some plain) :
    byteCount plain ≤ byteCount text := by
  induction text using unescape?.induct generalizing plain with
  | case1 =>
    cases success
    exact Nat.le_refl _
  | case2 => cases success
  | case3 c rest inductionHypothesis =>
    rw [unescape?] at success
    obtain ⟨d, isEscape, more⟩ := Option.bind_eq_some_iff.mp success
    obtain ⟨others, restPlain, same⟩ := Option.bind_eq_some_iff.mp more
    cases same
    have small := utf8Size_of_escaped isEscape
    have shorter := inductionHypothesis restPlain
    have backslash : '\\'.utf8Size = 1 := rfl
    rw [byteCount_cons, byteCount_cons, byteCount_cons]
    omega
  | case4 c rest noEscape noLast inductionHypothesis =>
    rw [unescape?] at success
    · obtain ⟨others, restPlain, rfl⟩ := Option.map_eq_some_iff.mp success
      have shorter := inductionHypothesis restPlain
      rw [byteCount_cons, byteCount_cons]
      omega
    · exact noEscape
    · exact noLast

theorem length_le_of_string {text : List Char} {bytes : List UInt8}
    (success : string? text = some bytes) : bytes.length ≤ byteCount text := by
  unfold string? at success
  split at success
  · rename_i body
    split at success
    · obtain ⟨plain, isPlain, rfl⟩ := Option.map_eq_some_iff.mp success
      have inside := byteCount_le ((List.dropLast_sublist body).cons '"')
      exact (byteCount_unescape isPlain).trans inside
    · cases success
  · cases success

/-- The literals that tokens add are no more than the tokens, and none is longer than its token. -/
structure Grows (found : List Token) (table next : LiteralTable) : Prop where
  count : next.length ≤ table.length + found.length
  bytes : ∀ literal ∈ next,
    literal ∈ table ∨ ∃ token ∈ found, literal.bytes.length ≤ byteCount token.text

namespace Grows

variable {found others : List Token} {table middle next : LiteralTable} {token : Token}

theorem refl (found : List Token) (table : LiteralTable) : Grows found table table :=
  ⟨Nat.le_add_right _ _, fun _ member => .inl member⟩

theorem trans (first : Grows found table middle) (second : Grows others middle next) :
    Grows (found ++ others) table next := by
  refine ⟨?_, fun literal member => ?_⟩
  · have firstCount := first.count
    have secondCount := second.count
    rw [List.length_append]
    omega
  · rcases second.bytes literal member with known | ⟨token, isFound, short⟩
    · rcases first.bytes literal known with old | ⟨token, isFound, short⟩
      · exact .inl old
      · exact .inr ⟨token, List.mem_append_left _ isFound, short⟩
    · exact .inr ⟨token, List.mem_append_right _ isFound, short⟩

theorem mono (grows : Grows found table next) (isPart : found.Sublist others) :
    Grows others table next := by
  refine ⟨?_, fun literal member => ?_⟩
  · have count := grows.count
    have longer := isPart.length_le
    omega
  · rcases grows.bytes literal member with known | ⟨token, isFound, short⟩
    · exact .inl known
    · exact .inr ⟨token, isPart.subset isFound, short⟩

theorem intern {literal : Literal} (short : literal.bytes.length ≤ byteCount token.text) :
    Grows [token] table (table.intern literal).2 := by
  rw [LiteralTable.intern]
  split
  · exact refl _ _
  · refine ⟨?_, fun other member => ?_⟩
    · rw [List.length_append]
      exact Nat.le_refl _
    · rcases List.mem_append.mp member with known | isNew
      · exact .inl known
      · obtain rfl := List.mem_singleton.mp isNew
        exact .inr ⟨token, List.mem_singleton_self token, short⟩

end Grows

theorem grows_literalOperand {table next : LiteralTable} {token : Token} {value : UInt64}
    (success : literalOperand table token.text = .ok (value, next)) : Grows [token] table next := by
  unfold literalOperand at success
  split at success
  · split at success
    · rename_i isString
      cases success
      exact .intern (length_le_of_string isString)
    · cases success
  · rename_i first name textEq
    cases success
    refine .intern ?_
    rw [textEq]
    exact byteCount_le (List.sublist_cons_self _ _)
  · obtain ⟨index, _, same⟩ := except_bind_eq_ok.mp success
    cases same
    exact .refl _ _

theorem grows_operand {labels : Labels} {table next : LiteralTable} {kind : OperandKind}
    {token : Token} {value : UInt64}
    (success : operand labels table kind token.text = .ok (value, next)) :
    Grows [token] table next := by
  unfold operand at success
  split at success
  · obtain ⟨_, _, same⟩ := except_map_eq_ok.mp success
    cases same
    exact .refl _ _
  · exact grows_literalOperand success
  · obtain ⟨_, _, same⟩ := except_map_eq_ok.mp success
    cases same
    exact .refl _ _

theorem grows_operands {labels : Labels} {line : Nat} {pairs : List (OperandKind × Token)}
    {table next : LiteralTable} {values : List UInt64}
    (success : operands labels line table pairs = .ok (values, next)) :
    values.length = pairs.length ∧ Grows (pairs.map (·.2)) table next := by
  induction pairs generalizing table values with
  | nil =>
    cases success
    exact ⟨rfl, .refl _ _⟩
  | cons first rest inductionHypothesis =>
    obtain ⟨kind, token⟩ := first
    rw [operands] at success
    split at success
    · cases success
    · rename_i value middle isOperand
      obtain ⟨⟨others, last⟩, more, same⟩ := except_bind_eq_ok.mp success
      cases same
      obtain ⟨count, grows⟩ := inductionHypothesis more
      exact ⟨congrArg (· + 1) count, (grows_operand isOperand).trans grows⟩

theorem grows_instruction {labels : Labels} {table next : LiteralTable} {statement : Statement}
    {instruction : Instruction}
    (success : statement.instruction labels table = .ok (instruction, next)) :
    instruction.words.length = statement.parts.length ∧ Grows statement.parts table next := by
  unfold Statement.instruction at success
  dsimp only at success
  split at success
  · rename_i count
    obtain ⟨⟨values, last⟩, isOperands, same⟩ := except_bind_eq_ok.mp success
    cases same
    obtain ⟨valueCount, grows⟩ := grows_operands isOperands
    rw [List.map_snd_zip (Nat.le_of_eq count)] at grows
    rw [List.length_zip, ← count, Nat.min_self] at valueCount
    exact ⟨congrArg (· + 1) valueCount, grows.mono (List.sublist_cons_self _ _)⟩
  · cases success

theorem grows_instructions {labels : Labels} {statements : List Statement}
    {table next : LiteralTable} {shown : List Instruction}
    (success : instructions labels table statements = .ok (shown, next)) :
    (Instruction.stream shown).length = (statements.flatMap Statement.parts).length ∧
      Grows (statements.flatMap Statement.parts) table next := by
  induction statements generalizing table shown with
  | nil =>
    cases success
    exact ⟨rfl, .refl _ _⟩
  | cons first rest inductionHypothesis =>
    rw [instructions] at success
    obtain ⟨⟨instruction, middle⟩, isInstruction, more⟩ := except_bind_eq_ok.mp success
    obtain ⟨⟨others, last⟩, isOthers, same⟩ := except_bind_eq_ok.mp more
    cases same
    obtain ⟨count, grows⟩ := grows_instruction isInstruction
    obtain ⟨restCount, restGrows⟩ := inductionHypothesis isOthers
    refine ⟨?_, grows.trans restGrows⟩
    rw [Instruction.stream_cons, List.length_append, count, restCount, List.flatMap_cons,
      List.length_append]

end Operands

/-- The parts that a listing is assembled from. -/
theorem of_assemble_ok {source : String} {assembly : Assembly}
    (success : assemble source = .ok assembly) : ∃ outline,
      outlineOf source = .ok outline ∧
      instructions outline.labels [] outline.statements =
        .ok (assembly.instructions, assembly.literals) ∧
      assembly.labels = outline.labels ∧
      CodeBlock.encode assembly.instructions = .ok assembly.code := by
  obtain ⟨outline, isOutline, more⟩ := except_bind_eq_ok.mp success
  obtain ⟨⟨shown, literals⟩, isShown, encoding⟩ := except_bind_eq_ok.mp more
  dsimp only at encoding
  split at encoding
  · cases encoding
  · rename_i code isCode
    cases encoding
    exact ⟨outline, isOutline, isShown, rfl, isCode⟩

/-- Neither the code nor the literals nor any one of them is larger than the text of the listing. -/
theorem extent_of_assemble {source : String} {assembly : Assembly}
    (success : assemble source = .ok assembly) :
    assembly.code.words.length ≤ (Text.Utf8.encode source).length ∧
      assembly.literals.length ≤ (Text.Utf8.encode source).length ∧
      ∀ literal ∈ assembly.literals,
        literal.bytes.length ≤ (Text.Utf8.encode source).length := by
  obtain ⟨outline, isOutline, isShown, _, isCode⟩ := of_assemble_ok success
  have fits := fits_outlineOf isOutline
  obtain ⟨wordCount, grows⟩ := grows_instructions isShown
  obtain ⟨_, wordsEq⟩ := CodeBlock.of_encode_ok isCode
  have tokenCount : outline.parts.length ≤ (Text.Utf8.encode source).length :=
    fits.length_le.trans (length_le_byteCount source.toList)
  refine ⟨?_, ?_, fun literal member => ?_⟩
  · rw [wordsEq, wordCount]
    exact tokenCount
  · have count := grows.count
    rw [List.length_nil, Nat.zero_add] at count
    exact count.trans tokenCount
  · rcases grows.bytes literal member with impossible | ⟨token, isFound, short⟩
    · cases impossible
    · exact short.trans (byteCount_le (fits.sublist_of_mem isFound))

end Listing

end CompiledCode
