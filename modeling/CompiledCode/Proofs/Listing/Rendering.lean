import CompiledCode.Code.Disassembly
import CompiledCode.Proofs.Code.Stream
import CompiledCode.Proofs.Listing.Tokens
import CompiledCode.Proofs.Text.Lines

/-!
The lines of a rendering are lines of a listing. Each spells a label definition, a mnemonic and the
operands as numbers, and what the notes say stands in a comment.
-/

namespace CompiledCode

open Listing

theorem Opcode.mem_all (opcode : Opcode) : opcode ∈ all := List.mem_of_getElem? (ofId?_id opcode)

/-- A mnemonic is made of lower-case letters, digits and underscores. -/
theorem Opcode.mnemonic_isBare (opcode : Opcode) : IsBare opcode.mnemonic.toList := by
  have table : ∀ opcode ∈ all, opcode.mnemonic.toList ≠ [] ∧ (opcode.mnemonic.toList.all fun c =>
      48 ≤ c.toNat && c.toNat ≤ 57 || 97 ≤ c.toNat && c.toNat ≤ 122 || c == '_') = true := by
    decide +kernel
  obtain ⟨filled, inside⟩ := table opcode opcode.mem_all
  refine ⟨filled, fun c member => ?_⟩
  have isWordCharacter := List.all_eq_true.mp inside c member
  simp only [Bool.or_eq_true, Bool.and_eq_true, decide_eq_true_eq, beq_iff_eq] at isWordCharacter
  rcases isWordCharacter with range | rfl
  · exact isOrdinary_of_toNat range
  · decide

theorem Listing.isBare_of_isDigit {text : List Char} (filled : text ≠ [])
    (onlyDigits : ∀ c ∈ text, c.isDigit) : IsBare text :=
  ⟨filled, fun c member =>
    isOrdinary_of_toNat (.inl (Char.isDigit_iff_toNat.mp (onlyDigits c member)))⟩

namespace Instruction

/-- The digits of the operands. -/
def operandTexts (instruction : Instruction) : List (List Char) :=
  instruction.operands.map fun value => Nat.toDigits 10 value.toNat

/-- The mnemonic and the digits of the operands. -/
def wordTexts (instruction : Instruction) : List (List Char) :=
  instruction.mnemonic.toList :: instruction.operandTexts

theorem isBare_of_mem_operandTexts {instruction : Instruction} {text : List Char}
    (member : text ∈ instruction.operandTexts) : IsBare text := by
  obtain ⟨value, _, rfl⟩ := List.mem_map.mp member
  exact isBare_of_isDigit Nat.toDigits_ne_nil fun _ => Text.isDigit_of_mem

theorem toList_text (instruction : Instruction) :
    instruction.text.toList = instruction.mnemonic.toList ++
      if instruction.operands = [] then []
      else ' ' :: [',', ' '].intercalate instruction.operandTexts := by
  have digits : String.toList ∘ toString = fun value : UInt64 => Nat.toDigits 10 value.toNat :=
    funext fun _ => Nat.toList_repr
  obtain ⟨opcode, operands⟩ := instruction
  cases operands with
  | nil => simp [text]
  | cons first rest =>
    rw [if_neg (List.cons_ne_nil first rest), operandTexts, text, String.toList_append,
      String.toList_append, String.toList_intercalate, List.map_map, digits, List.append_assoc]
    rfl

/-- The text of an instruction spells its mnemonic and its operands. -/
theorem spells_text (instruction : Instruction) :
    Spells instruction.text.toList instruction.wordTexts := by
  rw [toList_text, wordTexts]
  split
  · rename_i noOperands
    rw [operandTexts, noOperands]
    exact .word instruction.opcode.mnemonic_isBare (by simp) .nil
  · exact .word instruction.opcode.mnemonic_isBare (by simp [isSeparator])
      (.blank (.intercalate fun _ => isBare_of_mem_operandTexts))

end Instruction

namespace Decoded

variable (note : UInt64 → Option String) (jumps : List UInt64) (width : Nat)

/-- The name that a line defines as a label: the offset as it is printed, with the mark. -/
def labelText (offset : Nat) : List Char :=
  (if jumps.any (·.toNat == offset) then ['>'] else []) ++ Text.paddedDigits width offset

/-- A line up to the comment. The blank that stands for no mark is not part of the label. -/
def lineStart (entry : Nat × Instruction) : List Char :=
  (if jumps.any (·.toNat == entry.1) then [] else [' ']) ++
    (labelText jumps width entry.1 ++ [':'] ++ ' ' :: entry.2.text.toList)

/-- The notes on the literals of an instruction, as a comment. -/
def comment (instruction : Instruction) : List Char :=
  let notes := (instruction.operandsOfKind .literal).filterMap note
  if notes.isEmpty then [] else [' ', ' ', '#', ' '] ++ (", ".intercalate notes).toList

/-- A line as it is read back. -/
def shownLine (entry : Nat × Instruction) : List Char :=
  Text.dropReturn (lineStart jumps width entry ++ comment note entry.2)

theorem toList_renderLine (entry : Nat × Instruction) :
    (renderLine note jumps width entry).toList =
      lineStart jumps width entry ++ comment note entry.2 ++ ['\n'] := by
  obtain ⟨offset, instruction⟩ := entry
  simp only [renderLine, lineStart, labelText, comment, String.toList_append,
    Text.toList_padStart_toString]
  split <;> split <;> simp

theorem labelText_isBare (offset : Nat) : IsBare (labelText jumps width offset) := by
  have digits : IsBare (Text.paddedDigits width offset) :=
    isBare_of_isDigit (Text.paddedDigits_ne_nil width offset) fun _ =>
      Text.isDigit_of_mem_paddedDigits
  rw [labelText]
  split
  · exact isBare_append (isBare_singleton (by decide)) digits
  · exact digits

theorem not_mem_labelText (offset : Nat) : ':' ∉ labelText jumps width offset := by
  intro member
  rw [labelText, List.mem_append] at member
  rcases member with mark | digit
  · split at mark <;> simp at mark
  · exact absurd (Text.isDigit_of_mem_paddedDigits digit) (by decide)

/-- The digits of a label are its offset. -/
theorem digitsValue_labelText (offset : Nat) :
    Text.digitsValue ((labelText jumps width offset).filter Char.isDigit) = offset := by
  have digits : (Text.paddedDigits width offset).filter Char.isDigit =
      Text.paddedDigits width offset :=
    List.filter_eq_self.mpr fun _ => Text.isDigit_of_mem_paddedDigits
  have mark : (if jumps.any (·.toNat == offset) then ['>'] else []).filter Char.isDigit = [] := by
    split <;> rfl
  rw [labelText, List.filter_append, mark, digits, List.nil_append, Text.digitsValue_paddedDigits]

/-- A line up to the comment spells the definition of the label and the instruction. -/
theorem spells_lineStart (entry : Nat × Instruction) :
    Spells (lineStart jumps width entry)
      ((labelText jumps width entry.1 ++ [':']) :: entry.2.wordTexts) := by
  have definition : IsBare (labelText jumps width entry.1 ++ [':']) :=
    isBare_append (labelText_isBare jumps width entry.1) (isBare_singleton (by decide))
  have spells := Spells.word definition (by simp [isSeparator]) (.blank entry.2.spells_text)
  rw [lineStart]
  split
  · exact spells
  · exact .blank spells

/-- Notes on one line stay on the line. -/
theorem comment_inside {note : UInt64 → Option String}
    (oneLine : ∀ index text, note index = some text → '\n' ∉ text.toList) (instruction : Instruction) : '\n' ∉ comment note instruction := by
  rw [comment]
  split
  · exact List.not_mem_nil
  · rw [List.mem_append, not_or, String.toList_intercalate]
    refine ⟨by decide, Text.not_mem_intercalate (by decide) fun text member => ?_⟩
    obtain ⟨string, isNote, rfl⟩ := List.mem_map.mp member
    obtain ⟨index, _, noted⟩ := List.mem_filterMap.mp isNote
    exact oneLine index string noted

/-- Behind the start of a line stand blanks and a comment, or nothing. -/
theorem shownLine_eq (entry : Nat × Instruction) : ∃ blanks tail,
    shownLine note jumps width entry = lineStart jumps width entry ++ blanks ++ tail ∧
      Spells blanks [] ∧ (∀ c ∈ blanks.head?, isSeparator c = true) ∧ IsComment tail := by
  -- A carriage return that is lost can only be one at the end of a note.
  rw [shownLine, comment]
  split
  · refine ⟨[], [], ?_, .nil, by simp, by simp [IsComment]⟩
    have noReturn : '\r' ∉ lineStart jumps width entry := fun member =>
      ((spells_lineStart jumps width entry).inside _ member).2 rfl
    simp only [List.append_nil]
    exact Text.dropReturn_of_not_mem noReturn
  · obtain ⟨kept, dropped⟩ := Text.dropReturn_append (c := '#') (by decide)
      (lineStart jumps width entry ++ [' ', ' ']) (' ' :: (", ".intercalate
        ((entry.2.operandsOfKind .literal).filterMap note)).toList)
    refine ⟨[' ', ' '], '#' :: kept, ?_, .blank (.blank .nil), by simp [isSeparator],
      by simp [IsComment]⟩
    rw [← dropped]
    simp

/-- The tokens of a line are those in front of the comment. -/
theorem tokens_shownLine (entry : Nat × Instruction) :
    ∃ found, tokens (shownLine note jumps width entry) = .ok found ∧
      found.map Token.text = (labelText jumps width entry.1 ++ [':']) :: entry.2.wordTexts := by
  obtain ⟨blanks, tail, parts, onlyBlanks, apart, isComment⟩ := shownLine_eq note jumps width entry
  have spells := (spells_lineStart jumps width entry).append apart onlyBlanks
  rw [List.append_nil] at spells
  rw [parts]
  exact spells.tokensFrom_ok isComment 1

/-- Every instruction has its line. -/
theorem lines_render {note : UInt64 → Option String}
    (oneLine : ∀ index text, note index = some text → '\n' ∉ text.toList) (decoded : Decoded) :
    Text.lines (decoded.render note).toList =
      decoded.entries.map (shownLine note decoded.branchTargets decoded.offsetWidth) := by
  have text : (decoded.render note).toList = (decoded.entries.map fun entry =>
      lineStart decoded.branchTargets decoded.offsetWidth entry ++ comment note entry.2).flatMap
        (· ++ ['\n']) := by
    simp only [render, String.toList_join, List.flatMap_map, toList_renderLine]
  rw [text, Text.lines_terminated, List.map_map]
  · rfl
  · intro body member
    obtain ⟨entry, _, rfl⟩ := List.mem_map.mp member
    rw [List.mem_append, not_or]
    exact ⟨fun inside => ((spells_lineStart _ _ entry).inside _ inside).1 rfl,
      comment_inside oneLine entry.2⟩

end Decoded

end CompiledCode
