import CompiledCode.Proofs.Code.Editing
import CompiledCode.Proofs.Code.EncodingRoundTrip

/-!
An instruction is replaced in place. The words before it and behind it stay, and the room that a
narrower instruction leaves is filled with instructions that do nothing, so everything behind it is
found where it was. Anything else is refused and changes nothing.
-/

namespace CompiledCode

namespace Instruction

/-- An instruction, with instructions that do nothing behind it up to a width. -/
def filling (width : Nat) (instruction : Instruction) : List Instruction :=
  instruction :: List.replicate (width - instruction.width) idle

theorem replicate_idle_wellFormed (count : Nat) :
    ∀ each ∈ List.replicate count idle, each.IsWellFormed := by
  intro each member
  rw [List.eq_of_mem_replicate member]
  rfl

section Filling

variable {instruction : Instruction} {width : Nat}

theorem stream_filling : stream (instruction.filling width) = instruction.wordsWithin width := by
  rw [filling, stream_cons, stream_replicate_idle, wordsWithin]

theorem wordsWithin_width : instruction.wordsWithin instruction.width = instruction.words := by
  simp [wordsWithin]

theorem filling_wellFormed (wellFormed : instruction.IsWellFormed) :
    ∀ each ∈ instruction.filling width, each.IsWellFormed :=
  List.forall_mem_cons.mpr ⟨wellFormed, replicate_idle_wellFormed _⟩

end Filling

end Instruction

namespace CodeBlock

open Instruction

/-- The answer to a replacement, and the block that it leaves. -/
def patch (offset : Nat) (replacement : Instruction) (code : CodeBlock) :
    Except CodeError Instruction × CodeBlock :=
  match replace offset replacement code with
  | .ok old changed => (.ok old, changed)
  | .error cause changed => (.error cause, changed)

section Replacing

variable {code : CodeBlock} {offset : Nat} {before : List Instruction}
  {old replacement : Instruction} {rest : List UInt64}

theorem drop_behind (front words rest : List UInt64) :
    (front ++ (words ++ rest)).drop (front.length + words.length) = rest := by
  rw [← List.append_assoc, ← List.length_append, List.drop_left]

/-- The words of an instruction make room for those of one that is no wider. -/
theorem patch_stream {front : List UInt64} (oldFits : old.IsWellFormed)
    (fits : replacement.IsWellFormed) (narrow : replacement.width ≤ old.width)
    (parts : code.words = front ++ (old.words ++ rest)) :
    code.patch front.length replacement = (.ok old,
      { code with words := front ++ (replacement.wordsWithin old.width ++ rest) }) := by
  have found := instructionAt_stream oldFits parts
  have accepted := replaceable_of_narrow found fits narrow
  have count := length_wordsWithin narrow
  have behind : code.words.drop (front.length + old.width) = rest := by
    rw [parts, ← length_words, drop_behind]
  rw [patch, replace_of_replaceable accepted, overwrite, count, behind, parts, List.take_left]

/-- An instruction of the same width is replaced back. -/
theorem patch_back (oldFits : old.IsWellFormed) (fits : replacement.IsWellFormed)
    (sameWidth : replacement.width = old.width)
    (parts : code.words = stream before ++ (old.words ++ rest)) :
    patch (stream before).length old
      { code with words := stream before ++ (replacement.wordsWithin old.width ++ rest) } =
        (.ok replacement, code) := by
  rw [← sameWidth, wordsWithin_width, patch_stream fits oldFits sameWidth.ge rfl, sameWidth,
    wordsWithin_width, ← parts]

/-- An instruction that does not fit is refused, and the block stays as it was. -/
theorem patch_refused (found : code.instructionAt offset = .ok old)
    (unfit : ¬ (replacement.IsWellFormed ∧ replacement.width ≤ old.width)) :
    code.patch offset replacement =
      (.error (if replacement.IsWellFormed then
          .replacementTooWide offset old.width replacement.width
        else
          .operandCount replacement.mnemonic replacement.opcode.operandCount
            replacement.operands.length), code) := by
  rw [patch, replace_of_refused (replaceable_of_unfit found unfit)]

/-- Where no instruction can be read none is replaced. -/
theorem patch_unreadable
    (nothing : code.words.length ≤ offset ∨ Unreadable (code.words.drop offset)) :
    ∃ fault, code.patch offset replacement = (.error (.undecodable offset fault), code) := by
  have missing : ∃ fault, code.instructionAt offset = .error (.undecodable offset fault) := by
    rw [instructionAt]
    cases behind : code.words.drop offset with
    | nil => exact ⟨_, rfl⟩
    | cons word rest =>
      have unreadable : Unreadable (word :: rest) := by
        rcases nothing with pastEnd | unreadable
        · rw [List.drop_eq_nil_of_le pastEnd] at behind
          cases behind
        · rwa [behind] at unreadable
      obtain ⟨cause, failed⟩ := read_of_unreadable unreadable offset
      obtain ⟨_, fault, rfl⟩ := of_read_error failed
      exact ⟨fault, failed⟩
  obtain ⟨fault, missing⟩ := missing
  refine ⟨fault, ?_⟩
  rw [patch, replace_of_refused (replaceable_of_missing missing)]

/-- Whatever the cause, a replacement that fails has written nothing. -/
theorem patch_error {cause : CodeError} {changed : CodeBlock}
    (failed : code.patch offset replacement = (.error cause, changed)) : changed = code := by
  unfold patch at failed
  split at failed
  · cases failed
  · rename_i fault left result
    cases failed
    exact (replace_error result).1

end Replacing

/-- The blocks are the same but for the words of one instruction, where another one stands. -/
structure IsPatched (code changed : CodeBlock) (offset : Nat) (old replacement : Instruction) :
    Prop where
  length : changed.words.length = code.words.length
  stackDepth : changed.stackDepth = code.stackDepth
  ahead : changed.words.take offset = code.words.take offset
  within : (changed.words.drop offset).take old.width =
    replacement.words ++ List.replicate (old.width - replacement.width) 0
  behind : changed.words.drop (offset + old.width) = code.words.drop (offset + old.width)

theorem isPatched_stream {code : CodeBlock} {before : List Instruction}
    {old replacement : Instruction} {rest : List UInt64} (narrow : replacement.width ≤ old.width)
    (parts : code.words = stream before ++ (old.words ++ rest)) :
    IsPatched code
      { code with words := stream before ++ (replacement.wordsWithin old.width ++ rest) }
      (stream before).length old replacement where
  length := by
    simp only [parts, List.length_append, length_wordsWithin narrow, length_words]
  stackDepth := rfl
  ahead := by rw [parts, List.take_left, List.take_left]
  within := by
    rw [List.drop_left]
    exact List.take_left' (length_wordsWithin narrow)
  behind := by
    have oldBehind := drop_behind (stream before) old.words rest
    have newBehind := drop_behind (stream before) (replacement.wordsWithin old.width) rest
    rw [length_words] at oldBehind
    rw [length_wordsWithin narrow] at newBehind
    rw [parts, oldBehind, newBehind]

/-- The words of the instructions of a block are the block up to its padding. -/
theorem words_of_zero_padding {code : CodeBlock} {instructions : List Instruction}
    (accepted : Accepted code.words instructions)
    (zeros : ∀ word ∈ code.words.drop (stream instructions).length, word = 0) :
    code.words = stream (instructions ++
      List.replicate (code.words.length - (stream instructions).length) idle) := by
  obtain ⟨_, rest, parts, _⟩ := accepted
  rw [parts, List.drop_left] at zeros
  have allZero : rest = List.replicate rest.length 0 := List.eq_replicate_of_mem zeros
  have count : code.words.length - (stream instructions).length = rest.length := by
    rw [parts, List.length_append]
    omega
  rw [count, stream_append, stream_replicate_idle, ← allZero]
  exact parts

/--
After a replacement the block is decoded as the instructions before, the new one with what fills its
room, and the instructions behind, without the padding at their end.
-/
theorem decode_replaced (code : CodeBlock) {before after : List Instruction}
    {replacement : Instruction} (width : Nat)
    (beforeFits : ∀ each ∈ before, each.IsWellFormed) (fits : replacement.IsWellFormed)
    (afterFits : ∀ each ∈ after, each.IsWellFormed) :
    ∃ decoded, decode
        { code with words := stream before ++ (replacement.wordsWithin width ++ stream after) } =
          .ok decoded ∧
      decoded.entries = placed 0 decoded.instructions ∧
      decoded.instructions = strip (before ++ replacement.filling width ++ after) := by
  have allFit : ∀ each ∈ before ++ replacement.filling width ++ after, each.IsWellFormed := by
    simp only [List.forall_mem_append]
    exact ⟨⟨beforeFits, filling_wellFormed fits⟩, afterFits⟩
  obtain ⟨padding, decoding⟩ := decodeFrom_stream allFit false 0
  simp only [stream_append, stream_filling, List.append_assoc, stripFrom_false] at decoding
  have same : (Decoded.mk (placed 0 (strip (before ++ (replacement.filling width ++ after))))
      padding).instructions = strip (before ++ (replacement.filling width ++ after)) :=
    map_snd_placed 0 _
  refine ⟨_, decoding, ?_, ?_⟩
  · rw [same]
  · rw [same, List.append_assoc]

/--
An instruction of a block whose padding is zero is replaced by any that is no wider. Only its own
words change, the block is decoded as before but for the instruction and for the ones that do
nothing in the room behind it, and one of the same width is replaced back. All else is refused and
leaves the block as it was: an instruction with a wrong number of operands, one that is too wide,
and an offset where no instruction can be read. In any block a replacement that fails has written
nothing.
-/
theorem patch_changes_one (code : CodeBlock) (offset : Nat) (replacement : Instruction) :
    (∀ decoded old, code.decode = .ok decoded →
      (∀ word ∈ code.words.drop (stream decoded.instructions).length, word = 0) →
      (offset, old) ∈ decoded.entries →
      (replacement.IsWellFormed ∧ replacement.width ≤ old.width →
        ∃ changed before after redecoded,
          code.patch offset replacement = (.ok old, changed) ∧
          IsPatched code changed offset old replacement ∧
          decoded.instructions = before ++ old :: after ∧ (stream before).length = offset ∧
          changed.decode = .ok redecoded ∧
          redecoded.entries = placed 0 redecoded.instructions ∧
          redecoded.instructions = strip (before ++
            (replacement :: List.replicate (old.width - replacement.width) idle) ++ after ++
            List.replicate (code.words.length - (stream decoded.instructions).length) idle) ∧
          (replacement.width = old.width → changed.patch offset old = (.ok replacement, code))) ∧
      (¬ (replacement.IsWellFormed ∧ replacement.width ≤ old.width) →
        ∃ cause, code.patch offset replacement = (.error cause, code))) ∧
    (code.words.length ≤ offset ∨ Unreadable (code.words.drop offset) →
      ∃ cause, code.patch offset replacement = (.error cause, code)) ∧
    ∀ cause changed, code.patch offset replacement = (.error cause, changed) → changed = code := by
  refine ⟨?_, ?_, fun _ _ => patch_error⟩
  · intro decoded old success zeros member
    obtain ⟨accepted, entries⟩ := of_decode_ok success
    have parts := words_of_zero_padding accepted zeros
    have padded := replicate_idle_wellFormed
      (code.words.length - (stream decoded.instructions).length)
    obtain ⟨fits, _⟩ := accepted
    rw [entries] at member
    obtain ⟨before, after, split, atOffset⟩ := of_mem_placed member
    rw [Nat.zero_add] at atOffset
    subst atOffset
    have oldFits : old.IsWellFormed := by
      apply fits
      rw [split]
      exact List.mem_append_right _ List.mem_cons_self
    -- The instructions behind the old one and the padding are one stream, which stays.
    generalize List.replicate (code.words.length - (stream decoded.instructions).length) idle =
      padding at parts padded ⊢
    rw [split] at parts fits
    rw [List.append_assoc, List.cons_append, stream_append, stream_cons] at parts
    constructor
    · rintro ⟨replacementFits, narrow⟩
      obtain ⟨beforeFits, restFits⟩ := List.forall_mem_append.mp fits
      have afterFits : ∀ each ∈ after ++ padding, each.IsWellFormed :=
        List.forall_mem_append.mpr ⟨(List.forall_mem_cons.mp restFits).2, padded⟩
      obtain ⟨redecoded, decoding, redecodedEntries, stripped⟩ :=
        decode_replaced code old.width beforeFits replacementFits afterFits
      rw [← List.append_assoc] at stripped
      exact ⟨_, before, after, redecoded, patch_stream oldFits replacementFits narrow parts,
        isPatched_stream narrow parts, split, rfl, decoding, redecodedEntries, stripped,
        fun sameWidth => patch_back oldFits replacementFits sameWidth parts⟩
    · intro unfit
      exact ⟨_, patch_refused (instructionAt_stream oldFits parts) unfit⟩
  · intro nothing
    obtain ⟨fault, refused⟩ := patch_unreadable nothing
    exact ⟨_, refused⟩

/--
Without the return that ends the flow the words behind it are instructions again, and with the
return put back they are padding.
-/
theorem patch_changes_one_ending :
    let code : CodeBlock := ⟨[4, 5, 12, 0, 0], 1⟩
    let push : Instruction := ⟨.pushInt, [5]⟩
    let leave : Instruction := ⟨.ret, []⟩
    let pop : Instruction := ⟨.pop, []⟩
    (∃ changed redecoded, code.patch 2 pop = (.ok leave, changed) ∧
      IsPatched code changed 2 leave pop ∧ changed.decode = .ok redecoded ∧
      redecoded.instructions = [push, pop, idle, idle] ∧
      changed.patch 2 leave = (.ok pop, code)) ∧
    (∃ cause, code.patch 2 push = (.error cause, code)) ∧
    (∃ cause, code.patch 5 pop = (.error cause, code)) ∧
    ∃ cause, patch 1 pop ⟨[1, 86], 0⟩ = (.error cause, ⟨[1, 86], 0⟩) := by
  intro code push leave pop
  have success : code.decode = .ok ⟨[(0, push), (2, leave)], .zeros 3 2⟩ := by cbv
  have zeros : ∀ word ∈ code.words.drop (stream [push, leave]).length, word = 0 := by
    simp [code, push, leave, length_stream, width]
  have entry : (2, leave) ∈ [(0, push), (2, leave)] := by simp
  refine ⟨?_, ?_, ?_, ?_⟩
  · obtain ⟨changed, before, after, redecoded, patched, isPatched, split, _, decoding, _, stripped,
        back⟩ := ((patch_changes_one code 2 pop).1 _ _ success zeros entry).1 (by decide)
    refine ⟨changed, redecoded, patched, isPatched, decoding, ?_, back rfl⟩
    obtain ⟨rfl, rfl⟩ : before = [push] ∧ after = [] := by
      have split : [push] ++ leave :: [] = before ++ leave :: after := split
      rcases before with _ | ⟨first, _ | ⟨second, rest⟩⟩ <;> simp_all [push, leave]
    rw [stripped]
    rfl
  · exact ((patch_changes_one code 2 push).1 _ _ success zeros entry).2 (by decide)
  · exact (patch_changes_one code 5 pop).2.1 (.inl (by decide))
  · exact (patch_changes_one ⟨[1, 86], 0⟩ 1 pop).2.1 (.inr (.inl rfl))

end CodeBlock

end CompiledCode
