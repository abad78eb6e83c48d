import CompiledCode.Code.Edit
import CompiledCode.Proofs.Code.Stream
import CompiledCode.Proofs.Outcomes

/-!
What a replacement does to the block. All checks come before the first word is written, and nothing
fails after that, so a replacement is made as a whole or leaves the block as it was.
-/

namespace CompiledCode

section Overwriting

variable {words new others : List UInt64} {offset place index : Nat}

theorem length_overwrite (inside : offset + new.length ≤ words.length) :
    (overwrite words offset new).length = words.length := by
  simp only [overwrite, List.length_append, List.length_take, List.length_drop]
  omega

theorem getElem?_overwrite (inside : offset + new.length ≤ words.length) :
    (overwrite words offset new)[index]? =
      if offset ≤ index ∧ index < offset + new.length then new[index - offset]?
      else words[index]? := by
  have front : (words.take offset).length = offset := by
    rw [List.length_take]
    omega
  rw [overwrite, List.getElem?_append, front]
  by_cases ahead : index < offset
  · rw [if_pos ahead, if_neg (by omega), List.getElem?_take_of_lt ahead]
  · rw [if_neg ahead, List.getElem?_append]
    by_cases within : index - offset < new.length
    · rw [if_pos within, if_pos (by omega)]
    · rw [if_neg within, if_neg (by omega), List.getElem?_drop]
      congr 1
      omega

/-- Two places that share no word are written in any order. -/
theorem overwrite_comm (inside : offset + new.length ≤ words.length)
    (otherInside : place + others.length ≤ words.length)
    (apart : offset + new.length ≤ place ∨ place + others.length ≤ offset) :
    overwrite (overwrite words offset new) place others =
      overwrite (overwrite words place others) offset new := by
  apply List.ext_getElem?
  intro index
  rw [getElem?_overwrite (by rwa [length_overwrite inside]), getElem?_overwrite inside,
    getElem?_overwrite (by rwa [length_overwrite otherInside]), getElem?_overwrite otherInside]
  by_cases here : offset ≤ index ∧ index < offset + new.length
  · have notThere : ¬ (place ≤ index ∧ index < place + others.length) := by omega
    rw [if_pos here, if_neg notThere, if_pos here]
  · rw [if_neg here, if_neg here]

/-- Words that stand apart from the place that is written stay where they are. -/
theorem prefix_drop_overwrite (inside : offset + new.length ≤ words.length)
    (there : others <+: words.drop place)
    (apart : offset + new.length ≤ place ∨ place + others.length ≤ offset) :
    others <+: (overwrite words offset new).drop place := by
  rw [List.prefix_iff_getElem?] at there ⊢
  intro index isIndex
  have stays := there index isIndex
  rw [List.getElem?_drop] at stays ⊢
  rw [getElem?_overwrite inside, if_neg (by omega)]
  exact stays

/-- Words that are written behind others are written together with them. -/
theorem overwrite_append (inside : offset + new.length ≤ words.length) (others : List UInt64) :
    overwrite (overwrite words offset new) (offset + new.length) others =
      overwrite words offset (new ++ others) := by
  have front : (words.take offset ++ new).length = offset + new.length := by
    rw [List.length_append, List.length_take]
    omega
  have parts : overwrite words offset new =
      words.take offset ++ new ++ words.drop (offset + new.length) := by
    rw [overwrite, List.append_assoc]
  have behind : (overwrite words offset new).drop (offset + new.length + others.length) =
      words.drop (offset + new.length + others.length) := by
    rw [parts, ← List.drop_drop, List.drop_left' front, List.drop_drop]
  rw [overwrite, behind, parts, List.take_left' front, overwrite, List.length_append]
  simp only [List.append_assoc, Nat.add_assoc]

end Overwriting

namespace Instruction

/-- The words of an instruction, with zero words behind them up to a width. -/
def wordsWithin (width : Nat) (instruction : Instruction) : List UInt64 :=
  instruction.words ++ List.replicate (width - instruction.width) 0

theorem length_wordsWithin {instruction : Instruction} {width : Nat}
    (narrow : instruction.width ≤ width) : (instruction.wordsWithin width).length = width := by
  simp only [wordsWithin, List.length_append, length_words, List.length_replicate]
  omega

end Instruction

namespace CodeBlock

open Instruction

section Filling

variable {code changed : CodeBlock} {offset room : Nat} {old replacement : Instruction}
  {cause : CodeError}

/-- The words of an instruction that is read are in the block. -/
theorem inside_of_instructionAt (found : code.instructionAt offset = .ok old) :
    offset + old.width ≤ code.words.length := by
  unfold instructionAt at found
  split at found
  · cases found
  · rename_i word rest there
    obtain ⟨_, parts⟩ := of_read_ok found
    have remaining := congrArg List.length (there.trans parts)
    rw [List.length_drop, List.length_append, length_words] at remaining
    rw [width] at remaining ⊢
    omega

/-- The opcode, the operands and the zero words are written as one run of words. -/
theorem fill_eq (narrow : replacement.width ≤ room)
    (inside : offset + room ≤ code.words.length) :
    fill offset room replacement code =
      .ok () { code with words := overwrite code.words offset (replacement.wordsWithin room) } := by
  have short : offset + [replacement.opcode.id].length ≤ code.words.length := by
    rw [width] at narrow
    rw [List.length_singleton]
    omega
  have operands : overwrite (overwrite code.words offset [replacement.opcode.id]) (offset + 1)
      replacement.operands = overwrite code.words offset replacement.words :=
    overwrite_append short replacement.operands
  have zeros : overwrite (overwrite code.words offset replacement.words)
      (offset + replacement.width) (List.replicate (room - replacement.width) 0) =
        overwrite code.words offset (replacement.wordsWithin room) := by
    rw [wordsWithin, ← length_words]
    apply overwrite_append
    rw [length_words]
    omega
  rw [← zeros, ← operands]
  rfl

theorem replaceable_of_narrow (found : code.instructionAt offset = .ok old)
    (fits : replacement.IsWellFormed) (narrow : replacement.width ≤ old.width) :
    code.replaceable offset replacement = .ok old := by
  have checked : replacement.checkOperands = .ok () := if_pos fits
  rw [replaceable, found, checked]
  exact if_neg (Nat.not_lt_of_le narrow)

/-- A wrong number of operands is refused before the widths are compared. -/
theorem replaceable_of_unfit (found : code.instructionAt offset = .ok old)
    (unfit : ¬ (replacement.IsWellFormed ∧ replacement.width ≤ old.width)) :
    code.replaceable offset replacement =
      .error (if replacement.IsWellFormed then
          .replacementTooWide offset old.width replacement.width
        else
          .operandCount replacement.mnemonic replacement.opcode.operandCount
            replacement.operands.length) := by
  by_cases fits : replacement.IsWellFormed
  · have checked : replacement.checkOperands = .ok () := if_pos fits
    have wide : old.width < replacement.width :=
      Nat.lt_of_not_le fun narrow => unfit ⟨fits, narrow⟩
    rw [replaceable, found, checked, if_pos fits]
    exact if_pos wide
  · have checked : replacement.checkOperands = .error (.operandCount replacement.mnemonic
        replacement.opcode.operandCount replacement.operands.length) := if_neg fits
    rw [replaceable, found, checked, if_neg fits]
    rfl

theorem replaceable_of_missing (missing : code.instructionAt offset = .error cause) :
    code.replaceable offset replacement = .error cause := by
  rw [replaceable, missing]
  rfl

/-- Where an instruction may be replaced there is room for the other one. -/
theorem of_replaceable (accepted : code.replaceable offset replacement = .ok old) :
    replacement.width ≤ old.width ∧ offset + old.width ≤ code.words.length := by
  obtain ⟨other, found, rest⟩ := except_bind_eq_ok.mp accepted
  obtain ⟨_, _, compared⟩ := except_bind_eq_ok.mp rest
  split at compared
  · cases compared
  · rename_i narrow
    cases compared
    exact ⟨Nat.le_of_not_lt narrow, inside_of_instructionAt found⟩

/-- The checks of a replacement are all made before it writes. -/
theorem replace_eq (code : CodeBlock) (offset : Nat) (replacement : Instruction) :
    replace offset replacement code = match code.replaceable offset replacement with
      | .ok old => match fill offset old.width replacement code with
        | .ok _ changed => .ok old changed
        | .error cause changed => .error cause changed
      | .error cause => .error cause code := by
  have turn : replace offset replacement code =
      (do let old ← MonadExcept.ofExcept (code.replaceable offset replacement)
          fill offset old.width replacement
          return old : Edit Instruction) code := rfl
  rw [turn]
  cases code.replaceable offset replacement with
  | ok old => rfl
  | error cause => rfl

theorem replace_of_replaceable (accepted : code.replaceable offset replacement = .ok old) :
    replace offset replacement code = .ok old
      { code with words := overwrite code.words offset (replacement.wordsWithin old.width) } := by
  obtain ⟨narrow, inside⟩ := of_replaceable accepted
  rw [replace_eq, accepted]
  dsimp only
  rw [fill_eq narrow inside]

theorem replace_of_refused (refused : code.replaceable offset replacement = .error cause) :
    replace offset replacement code = .error cause code := by
  rw [replace_eq, refused]

/-- A replacement that fails has changed nothing, wherever in it the failure is. -/
theorem replace_error (failed : replace offset replacement code = .error cause changed) :
    changed = code ∧ code.replaceable offset replacement = .error cause := by
  cases accepted : code.replaceable offset replacement with
  | ok old =>
    rw [replace_of_replaceable accepted] at failed
    cases failed
  | error fault =>
    rw [replace_of_refused accepted] at failed
    cases failed
    exact ⟨rfl, rfl⟩

end Filling

end CodeBlock

end CompiledCode
