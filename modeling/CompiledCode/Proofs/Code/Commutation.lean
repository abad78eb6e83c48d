import Mathlib.Data.List.Pairwise
import CompiledCode.Proofs.Code.Replacement

/-!
Replacements at different instructions of a block do not interfere. Each one writes over the words
of its own instruction and no others, so that neither the block that they leave nor any answer
depends on the order in which they are made.
-/

namespace CompiledCode

namespace Instruction

/-- The words that an attempt to replace the instruction leaves in its place. -/
def wordsAfter (old replacement : Instruction) : List UInt64 :=
  if replacement.IsWellFormed ∧ replacement.width ≤ old.width then
    replacement.wordsWithin old.width
  else old.words

theorem length_wordsAfter (old replacement : Instruction) :
    (old.wordsAfter replacement).length = old.width := by
  rw [wordsAfter]
  split
  · rename_i accepted
    exact length_wordsWithin accepted.2
  · exact length_words old

/-- Two instructions at their offsets share no word. -/
def Apart (first second : Nat × Instruction) : Prop :=
  first.1 + first.2.width ≤ second.1 ∨ second.1 + second.2.width ≤ first.1

instance : Std.Symm Apart where
  symm _ _ := Or.symm

end Instruction

namespace CodeBlock

open Instruction

/-- The words of a well-formed instruction stand at the offset. -/
structure Holds (code : CodeBlock) (offset : Nat) (old : Instruction) : Prop where
  fits : old.IsWellFormed
  there : old.words <+: code.words.drop offset

section Holding

variable {code : CodeBlock} {offset place : Nat} {old kept : Instruction}

theorem Holds.inside (holds : code.Holds offset old) : offset + old.width ≤ code.words.length := by
  have short := holds.there.length_le
  rw [length_words, List.length_drop, width] at short
  rw [width]
  omega

/-- The block is the words ahead, those of the instruction and those behind. -/
theorem Holds.parts (holds : code.Holds offset old) : code.words =
    code.words.take offset ++ (old.words ++ code.words.drop (offset + old.width)) := by
  obtain ⟨rest, parts⟩ := holds.there
  have behind : rest = code.words.drop (offset + old.width) := by
    rw [← List.drop_drop, ← parts, ← length_words, List.drop_left]
  rw [← behind, parts, List.take_append_drop]

theorem Holds.instructionAt (holds : code.Holds offset old) :
    code.instructionAt offset = .ok old := by
  have found := instructionAt_stream holds.fits holds.parts
  have inside := holds.inside
  rwa [List.length_take, Nat.min_eq_left (by omega)] at found

/-- The entries of a decoded block are in it. -/
theorem holds_of_decode {decoded : Decoded} (success : code.decode = .ok decoded)
    (member : (offset, old) ∈ decoded.entries) : code.Holds offset old := by
  obtain ⟨⟨fits, rest, parts, _⟩, entries⟩ := of_decode_ok success
  rw [entries] at member
  obtain ⟨before, after, split, atOffset⟩ := of_mem_placed member
  rw [Nat.zero_add] at atOffset
  rw [split, stream_append, stream_cons, List.append_assoc, List.append_assoc] at parts
  constructor
  · apply fits
    rw [split]
    exact List.mem_append_right _ List.mem_cons_self
  · rw [parts, atOffset, List.drop_left]
    exact List.prefix_append _ _

/-- The instruction alone decides on the answer, and the words in its place are all that changes. -/
theorem patch_eq (holds : code.Holds offset old) (replacement : Instruction) :
    code.patch offset replacement =
      (if replacement.IsWellFormed then
          if replacement.width ≤ old.width then .ok old
          else .error (.replacementTooWide offset old.width replacement.width)
        else .error (.operandCount replacement.mnemonic replacement.opcode.operandCount
          replacement.operands.length),
        { code with words := overwrite code.words offset (old.wordsAfter replacement) }) := by
  have inside := holds.inside
  have atOffset : (code.words.take offset).length = offset := by
    rw [List.length_take]
    omega
  rw [overwrite, length_wordsAfter, wordsAfter]
  by_cases accepted : replacement.IsWellFormed ∧ replacement.width ≤ old.width
  · have patched := patch_stream holds.fits accepted.1 accepted.2 holds.parts
    rw [atOffset] at patched
    rw [patched, if_pos accepted, if_pos accepted.1, if_pos accepted.2]
  · -- The words of a refused replacement's instruction are written over themselves.
    rw [patch_refused holds.instructionAt accepted, if_neg accepted, ← holds.parts]
    by_cases fits : replacement.IsWellFormed
    · have wide : ¬ replacement.width ≤ old.width := fun narrow => accepted ⟨fits, narrow⟩
      rw [if_pos fits, if_pos fits, if_neg wide]
    · rw [if_neg fits, if_neg fits]

/-- An instruction is still there after a replacement elsewhere. -/
theorem Holds.patch (keptHolds : code.Holds place kept) (holds : code.Holds offset old)
    (apart : Apart (offset, old) (place, kept)) (replacement : Instruction) :
    (code.patch offset replacement).2.Holds place kept := by
  rw [patch_eq holds]
  have inside := holds.inside
  have count := length_wordsAfter old replacement
  refine ⟨keptHolds.fits, prefix_drop_overwrite (by rwa [count]) keptHolds.there ?_⟩
  rwa [count, length_words]

/-- The answer is the same in every block that has the instruction there. -/
theorem patch_answer {other : CodeBlock} (holds : code.Holds offset old)
    (otherHolds : other.Holds offset old) (replacement : Instruction) :
    (code.patch offset replacement).1 = (other.patch offset replacement).1 := by
  rw [patch_eq holds, patch_eq otherHolds]

/-- Two replacements of different instructions are made in any order. -/
theorem patch_comm (holds : code.Holds offset old) (otherHolds : code.Holds place kept)
    (apart : Apart (offset, old) (place, kept)) (first second : Instruction) :
    ((code.patch offset first).2.patch place second).2 =
      ((code.patch place second).2.patch offset first).2 := by
  rw [patch_eq (otherHolds.patch holds apart first), patch_eq holds,
    patch_eq (holds.patch otherHolds (Or.symm apart) second), patch_eq otherHolds]
  have inside := holds.inside
  have otherInside := otherHolds.inside
  have count := length_wordsAfter old first
  have otherCount := length_wordsAfter kept second
  have commutes : overwrite (overwrite code.words offset (old.wordsAfter first)) place
        (kept.wordsAfter second) =
      overwrite (overwrite code.words place (kept.wordsAfter second)) offset
        (old.wordsAfter first) := by
    apply overwrite_comm (by rwa [count]) (by rwa [otherCount])
    rwa [count, otherCount]
  dsimp only
  rw [commutes]

end Holding

end CodeBlock

/-- An instruction that is to stand at a word offset. -/
structure Replacement where
  offset : Nat
  instruction : Instruction
  deriving DecidableEq, Repr

namespace CodeBlock

open Instruction

/-- The answer to a replacement, and the block after it. -/
def attempt (code : CodeBlock) (request : Replacement) : Except CodeError Instruction × CodeBlock :=
  code.patch request.offset request.instruction

/-- The answers to replacements that are made one after another, and the block after all of them. -/
def attemptAll (code : CodeBlock) :
    List Replacement → List (Except CodeError Instruction) × CodeBlock
  | [] => ([], code)
  | request :: rest =>
    let (answer, code) := code.attempt request
    let (answers, code) := code.attemptAll rest
    (answer :: answers, code)

/-- Each of the replacements is for an entry of its own, and the block has what it replaces. -/
structure Awaits (code : CodeBlock) (entries : List (Nat × Instruction))
    (requests : List Replacement) : Prop where
  apart : entries.Pairwise Apart
  distinct : (requests.map Replacement.offset).Nodup
  held : ∀ request ∈ requests,
    ∃ old, (request.offset, old) ∈ entries ∧ code.Holds request.offset old

section Runs

variable {code : CodeBlock} {entries : List (Nat × Instruction)} {request other : Replacement}
  {requests first second : List Replacement}

theorem Awaits.perm (awaits : code.Awaits entries first) (permuted : first.Perm second) :
    code.Awaits entries second where
  apart := awaits.apart
  distinct := (permuted.map Replacement.offset).nodup_iff.mp awaits.distinct
  held := fun request member => awaits.held request (permuted.mem_iff.mpr member)

/-- What the first replacement and another one replace shares no word. -/
theorem Awaits.apart_of_mem (awaits : code.Awaits entries (request :: requests))
    (member : other ∈ requests) : ∃ old kept, code.Holds request.offset old ∧
      (other.offset, kept) ∈ entries ∧ code.Holds other.offset kept ∧
      Instruction.Apart (request.offset, old) (other.offset, kept) := by
  obtain ⟨fresh, _⟩ := List.nodup_cons.mp awaits.distinct
  have differs : request.offset ≠ other.offset := by
    intro same
    exact fresh (same ▸ List.mem_map_of_mem member)
  obtain ⟨old, isEntry, holds⟩ := awaits.held request List.mem_cons_self
  obtain ⟨kept, isOther, otherHolds⟩ := awaits.held other (List.mem_cons_of_mem _ member)
  have apart : Instruction.Apart (request.offset, old) (other.offset, kept) :=
    awaits.apart.forall isEntry isOther fun same => differs (congrArg Prod.fst same)
  exact ⟨old, kept, holds, isOther, otherHolds, apart⟩

/-- The first replacement leaves to the others what they replace. -/
theorem Awaits.tail (awaits : code.Awaits entries (request :: requests)) :
    (code.attempt request).2.Awaits entries requests where
  apart := awaits.apart
  distinct := (List.nodup_cons.mp awaits.distinct).2
  held := fun other member => by
    obtain ⟨old, kept, holds, isOther, otherHolds, apart⟩ := awaits.apart_of_mem member
    exact ⟨kept, isOther, otherHolds.patch holds apart request.instruction⟩

/-- Each replacement is answered as if there were no others. -/
theorem answers_attemptAll (awaits : code.Awaits entries requests) :
    (code.attemptAll requests).1 = requests.map fun request => (code.attempt request).1 := by
  induction requests generalizing code with
  | nil => rfl
  | cons request rest inductionHypothesis =>
    have others : (rest.map fun other => ((code.attempt request).2.attempt other).1) =
        rest.map fun other => (code.attempt other).1 := by
      apply List.map_congr_left
      intro other member
      obtain ⟨old, kept, holds, _, otherHolds, apart⟩ := awaits.apart_of_mem member
      have stillHolds := otherHolds.patch holds apart request.instruction
      exact patch_answer stillHolds otherHolds other.instruction
    rw [List.map_cons, ← others, ← inductionHypothesis awaits.tail]
    rfl

/-- Two replacements that come one after the other may change places. -/
theorem attemptAll_swap (awaits : code.Awaits entries (request :: other :: requests)) :
    (code.attemptAll (request :: other :: requests)).2 =
      (code.attemptAll (other :: request :: requests)).2 := by
  obtain ⟨old, kept, holds, _, otherHolds, apart⟩ := awaits.apart_of_mem List.mem_cons_self
  have commutes := patch_comm holds otherHolds apart request.instruction other.instruction
  exact congrArg (fun after => (attemptAll after requests).2) commutes

/-- The block that is left does not depend on the order. -/
theorem attemptAll_perm (permuted : first.Perm second) (awaits : code.Awaits entries first) :
    (code.attemptAll first).2 = (code.attemptAll second).2 := by
  induction permuted generalizing code with
  | nil => rfl
  | cons request _ inductionHypothesis => exact inductionHypothesis awaits.tail
  | swap first second rest => exact attemptAll_swap awaits
  | trans firstPermuted _ firstHypothesis secondHypothesis =>
    exact (firstHypothesis awaits).trans (secondHypothesis (awaits.perm firstPermuted))

/-- A decoded block has what is replaced at its entries. -/
theorem awaits_of_decode {decoded : Decoded} (success : code.decode = .ok decoded)
    (distinct : (requests.map Replacement.offset).Nodup)
    (atEntries : ∀ request ∈ requests, request.offset ∈ decoded.entries.map Prod.fst) :
    code.Awaits decoded.entries requests where
  apart := by
    rw [(of_decode_ok success).2]
    exact (placed_apart 0 decoded.instructions).imp Or.inl
  distinct := distinct
  held := fun request member => by
    obtain ⟨⟨offset, old⟩, isEntry, same⟩ := List.mem_map.mp (atEntries request member)
    obtain rfl : offset = request.offset := same
    exact ⟨old, isEntry, holds_of_decode success isEntry⟩

end Runs

/--
Replacements at different entries of a decoded block, of any width and with any number of operands,
may be made in any order. They leave the same words and the same depth, and in either order each of
them has the answer, instruction or failure, that it has when it is the only one.
-/
theorem replacements_commute (code : CodeBlock) {decoded : Decoded}
    (success : code.decode = .ok decoded) {first second : List Replacement}
    (permuted : first.Perm second) (distinct : (first.map Replacement.offset).Nodup)
    (atEntries : ∀ request ∈ first, request.offset ∈ decoded.entries.map Prod.fst) :
    (code.attemptAll first).2.words = (code.attemptAll second).2.words ∧
      (code.attemptAll first).2.stackDepth = (code.attemptAll second).2.stackDepth ∧
      (code.attemptAll first).1 =
        first.map (fun request => (code.patch request.offset request.instruction).1) ∧
      (code.attemptAll second).1 =
        second.map (fun request => (code.patch request.offset request.instruction).1) := by
  have awaits := awaits_of_decode success distinct atEntries
  have same := attemptAll_perm permuted awaits
  refine ⟨congrArg words same, congrArg stackDepth same, ?_, ?_⟩
  · exact answers_attemptAll awaits
  · exact answers_attemptAll (awaits.perm permuted)

/--
The return in front of words that are no instruction becomes an instruction after which they may not
stand. A narrow instruction is made where a wide one was, and two replacements are refused.
-/
theorem replacements_commute_mixed :
    let code : CodeBlock := ⟨[4, 5, 53, 1, 2, 16, 8, 0, 12, 999], 7⟩
    let narrow : Replacement := ⟨2, ⟨.pop, []⟩⟩
    let wide : Replacement := ⟨5, ⟨.pushInt, [3]⟩⟩
    let short : Replacement := ⟨0, ⟨.pushInt, []⟩⟩
    let ending : Replacement := ⟨8, ⟨.dupTop, []⟩⟩
    code.attemptAll [narrow, wide, short, ending] =
        ([.ok ⟨.setLocalDepth, [1, 2]⟩, .error (.replacementTooWide 5 1 2),
          .error (.operandCount "push_int" 1 0), .ok ⟨.ret, []⟩],
          ⟨[4, 5, 16, 0, 0, 16, 8, 0, 15, 999], 7⟩) ∧
      (code.attemptAll [ending, short, narrow, wide]).2.words =
        [4, 5, 16, 0, 0, 16, 8, 0, 15, 999] ∧
      (code.attemptAll [ending, short, narrow, wide]).1 =
        [.ok ⟨.ret, []⟩, .error (.operandCount "push_int" 1 0), .ok ⟨.setLocalDepth, [1, 2]⟩,
          .error (.replacementTooWide 5 1 2)] := by
  intro code narrow wide short ending
  have success : code.decode = .ok ⟨[(0, ⟨.pushInt, [5]⟩), (2, ⟨.setLocalDepth, [1, 2]⟩),
      (5, ⟨.pop, []⟩), (6, ⟨.goto, [0]⟩), (8, ⟨.ret, []⟩)],
      .unreadable 9 (.undecodable 9 (.invalidOpcode 999))⟩ := by cbv
  have firstOrder : code.attemptAll [narrow, wide, short, ending] =
      ([.ok ⟨.setLocalDepth, [1, 2]⟩, .error (.replacementTooWide 5 1 2),
        .error (.operandCount "push_int" 1 0), .ok ⟨.ret, []⟩],
        ⟨[4, 5, 16, 0, 0, 16, 8, 0, 15, 999], 7⟩) := rfl
  have permuted : [narrow, wide, short, ending].Perm [ending, short, narrow, wide] := by decide
  have distinct : ([narrow, wide, short, ending].map Replacement.offset).Nodup := by decide
  obtain ⟨words, _, _, answers⟩ :=
    replacements_commute code success permuted distinct (by decide)
  refine ⟨firstOrder, ?_, ?_⟩
  · rw [← words, firstOrder]
  · rw [answers]
    rfl

end CodeBlock

end CompiledCode
