import Mathlib.Algebra.BigOperators.Group.List.Basic
import Mathlib.Algebra.Ring.Int.Defs
import Mathlib.Algebra.Ring.Nat
import Mathlib.Order.Bounds.Basic
import CompiledCode.Code.Encode
import CompiledCode.Proofs.Code.Stream

/-!
What an encoding asks of a list of instructions, in numbers without bounds: each instruction counts
its slots in 63 bits, and the depths that are reached one after another have 64 bits with a sign.
Encoding fails at the first instruction that breaks this, and otherwise it finds the greatest depth.
-/

namespace CompiledCode

/-- The operand that a source stands for. -/
def StackSource.position? : StackSource → Option Nat
  | firstOperand => some 0
  | secondOperand => some 1
  | argumentRegister => none

namespace StackEffect

/-- The number of slots as a natural number of any size. -/
def slots (operands : List UInt64) : StackEffect → Nat
  | fixed count => count
  | scaled source multiplier constant =>
    multiplier * (source.position?.elim 0 fun index => (operands.getD index 0).toNat) + constant

/-- An instruction with this number of operands has what the effect depends on. -/
def isDecidedBy (operandCount : Nat) : StackEffect → Bool
  | fixed _ => true
  | scaled source _ _ => source.position?.any (· < operandCount)

/-- Slots are counted as they are unless their number is too large for a word. -/
theorem resolve_of_isDecidedBy {effect : StackEffect} {operands : List UInt64}
    (decided : effect.isDecidedBy operands.length) (mnemonic : String) :
    effect.resolve mnemonic operands none = .ok (effect.slots operands) ∨
      2 ^ 64 ≤ effect.slots operands ∧
        effect.resolve mnemonic operands none = .error (.stackOverflow mnemonic) := by
  cases effect with
  | fixed count => exact .inl rfl
  | scaled source multiplier constant =>
    obtain ⟨index, position, inside⟩ : ∃ index, source.position? = some index ∧
        index < operands.length := by
      simpa only [isDecidedBy, Option.any_eq_true, decide_eq_true_eq] using decided
    have value : sourceValue mnemonic operands none source = .ok (operands.getD index 0).toNat := by
      cases source <;> cases position <;> simp [sourceValue, operand, inside]
    have counted : (scaled source multiplier constant).slots operands =
        multiplier * (operands.getD index 0).toNat + constant := by
      rw [slots, position, Option.elim_some]
    simp only [resolve, value, counted, bind, Except.bind]
    split
    · exact .inl rfl
    · rename_i large
      exact .inr ⟨Nat.le_of_not_lt large, rfl⟩

end StackEffect

/-- No instruction of the table depends on more than its operands. -/
theorem Opcode.effects_isDecidedBy (opcode : Opcode) :
    opcode.descriptor.consumed.isDecidedBy opcode.operandCount ∧
      opcode.descriptor.produced.isDecidedBy opcode.operandCount := by
  cases opcode <;> decide

namespace Instruction

section Effects

/-- Slots that the instruction takes. -/
def slotsTaken (instruction : Instruction) : Nat :=
  instruction.opcode.descriptor.consumed.slots instruction.operands

/-- Slots that the instruction gives. -/
def slotsGiven (instruction : Instruction) : Nat :=
  instruction.opcode.descriptor.produced.slots instruction.operands

/-- What the instruction adds to the depth of the stack. -/
def gain (instruction : Instruction) : Int := instruction.slotsGiven - instruction.slotsTaken

/-- The instruction has the operands that the table asks for, and its slots are counted in 63 bits. -/
structure IsCountable (instruction : Instruction) : Prop where
  wellFormed : instruction.IsWellFormed
  taken : instruction.slotsTaken ≤ 2 ^ 63 - 1
  given : instruction.slotsGiven ≤ 2 ^ 63 - 1

/-- Why an instruction is not encoded. -/
def refusal (instruction : Instruction) : CodeError :=
  if instruction.IsWellFormed then .stackOverflow instruction.mnemonic
  else
    .operandCount instruction.mnemonic instruction.opcode.operandCount instruction.operands.length

variable {instruction : Instruction}

theorem stackDifference_eq (wellFormed : instruction.IsWellFormed) :
    instruction.stackDifference =
      if instruction.slotsGiven < 2 ^ 63 ∧ instruction.slotsTaken < 2 ^ 63 then
        .ok instruction.gain
      else .error (.stackOverflow instruction.mnemonic) := by
  obtain ⟨consumed, produced⟩ := instruction.opcode.effects_isDecidedBy
  rw [← wellFormed] at consumed produced
  unfold stackDifference stackProduced stackConsumed
  -- A number of slots that has no 64 bits has no 63 bits either.
  rcases StackEffect.resolve_of_isDecidedBy produced instruction.mnemonic with
    given | ⟨large, given⟩
  · rcases StackEffect.resolve_of_isDecidedBy consumed instruction.mnemonic with
      taken | ⟨large, taken⟩
    · rw [given, taken]
      rfl
    · rw [given, taken, if_neg]
      · rfl
      · rintro ⟨_, small⟩
        unfold slotsTaken at small
        omega
  · rw [given, if_neg]
    · rfl
    · rintro ⟨small, _⟩
      unfold slotsGiven at small
      omega

theorem step_of_isCountable (countable : instruction.IsCountable) :
    instruction.step = .ok instruction.gain := by
  obtain ⟨wellFormed, taken, given⟩ := countable
  have checked : instruction.checkOperands = .ok () := if_pos wellFormed
  rw [step, checked, stackDifference_eq wellFormed, if_pos (by omega)]
  rfl

theorem step_of_not_isCountable (uncountable : ¬ instruction.IsCountable) :
    instruction.step = .error instruction.refusal := by
  rw [step, refusal]
  by_cases wellFormed : instruction.IsWellFormed
  · have checked : instruction.checkOperands = .ok () := if_pos wellFormed
    rw [checked, if_pos wellFormed, stackDifference_eq wellFormed, if_neg]
    · rfl
    · rintro ⟨given, taken⟩
      exact uncountable ⟨wellFormed, by omega, by omega⟩
  · have checked : instruction.checkOperands = .error (.operandCount instruction.mnemonic
        instruction.opcode.operandCount instruction.operands.length) := if_neg wellFormed
    rw [checked, if_neg wellFormed]
    rfl

end Effects

/-- The depth of the stack after the instructions. -/
def depthAfter (instructions : List Instruction) : Int := (instructions.map gain).sum

/-- The depths before, between and after the instructions. -/
def depths (instructions : List Instruction) : Set Int :=
  {depth | ∃ before, before <+: instructions ∧ depthAfter before = depth}

/-- Every instruction is countable, and every depth has 64 bits with a sign. -/
structure IsEncodable (instructions : List Instruction) : Prop where
  countable : ∀ instruction ∈ instructions, instruction.IsCountable
  inRange : ∀ depth ∈ depths instructions, -2 ^ 63 ≤ depth ∧ depth ≤ 2 ^ 63 - 1

section Depths

variable {before instructions : List Instruction} {last : Instruction}

theorem depthAfter_concat :
    depthAfter (before ++ [last]) = depthAfter before + last.gain := by
  simp [depthAfter]

theorem depths_nil : depths [] = {0} := by
  ext depth
  simp [depths, depthAfter, eq_comm]

theorem depths_concat :
    depths (before ++ [last]) = insert (depthAfter before + last.gain) (depths before) := by
  ext depth
  simp only [depths, List.prefix_concat_iff, or_and_right, exists_or, exists_eq_left,
    depthAfter_concat, Set.mem_ofPred_eq, Set.mem_insert_iff]
  rw [eq_comm]

theorem isEncodable_nil : IsEncodable [] := by
  constructor
  · simp
  · simp [depths_nil]

theorem isEncodable_concat : IsEncodable (before ++ [last]) ↔ IsEncodable before ∧
    last.IsCountable ∧
      -2 ^ 63 ≤ depthAfter before + last.gain ∧ depthAfter before + last.gain ≤ 2 ^ 63 - 1 := by
  constructor
  · rintro ⟨countable, inRange⟩
    rw [depths_concat] at inRange
    obtain ⟨here, earlier⟩ := Set.forall_mem_insert.mp inRange
    obtain ⟨front, lastCountable⟩ := List.forall_mem_append.mp countable
    exact ⟨⟨front, earlier⟩, lastCountable last List.mem_cons_self, here⟩
  · rintro ⟨⟨front, earlier⟩, lastCountable, here⟩
    constructor
    · exact List.forall_mem_append.mpr ⟨front, List.forall_mem_singleton.mpr lastCountable⟩
    · rw [depths_concat]
      exact Set.forall_mem_insert.mpr ⟨here, earlier⟩

theorem IsEncodable.of_isPrefix (encodable : IsEncodable instructions)
    (isFront : before <+: instructions) : IsEncodable before := by
  constructor
  · intro instruction member
    exact encodable.countable instruction (isFront.subset member)
  · rintro depth ⟨front, isFrontOfIt, reached⟩
    exact encodable.inRange depth ⟨front, isFrontOfIt.trans isFront, reached⟩

end Depths

theorem length_stream (instructions : List Instruction) :
    (stream instructions).length = (instructions.map width).sum := by
  rw [stream, List.length_flatMap]
  simp only [length_words]

end Instruction

namespace CodeBlock

open Instruction

/-- The cause is that of the first instruction which ends a list that cannot be encoded. -/
def BreaksAt (instructions : List Instruction) (cause : CodeError) : Prop :=
  ∃ before first after, instructions = before ++ first :: after ∧
    IsEncodable before ∧ ¬ IsEncodable (before ++ [first]) ∧ cause = first.refusal

/-- A result is right for instructions that follow others: all of them can be encoded, or not. -/
def IsEncoding (before instructions : List Instruction) :
    Except EncodeError (List UInt64 × Int) → Prop
  | .ok result =>
    IsEncodable (before ++ instructions) ∧ result.1 = stream instructions ∧
      IsGreatest (depths (before ++ instructions)) result.2
  | .error failure => BreaksAt (before ++ instructions) failure.cause

/-- Encoding gives the right result from any depth that instructions have reached. -/
theorem encodeFrom_isEncoding {before : List Instruction} {greatest : Int}
    (encodable : IsEncodable before) (isGreatest : IsGreatest (depths before) greatest)
    (index : Nat) (instructions : List Instruction) :
    IsEncoding before instructions
      (encodeFrom index (depthAfter before) greatest instructions) := by
  induction instructions generalizing before greatest index with
  | nil =>
    rw [encodeFrom, IsEncoding, List.append_nil]
    exact ⟨encodable, rfl, isGreatest⟩
  | cons first rest inductionHypothesis =>
    have whole : before ++ first :: rest = before ++ [first] ++ rest := by simp
    rw [encodeFrom]
    by_cases countable : first.IsCountable
    · rw [step_of_isCountable countable]
      dsimp only
      by_cases inRange : isDepth (depthAfter before + first.gain) = true
      · rw [if_pos inRange]
        have range := of_decide_eq_true inRange
        have next : IsEncodable (before ++ [first]) :=
          isEncodable_concat.mpr ⟨encodable, countable, by omega⟩
        have nextGreatest : IsGreatest (depths (before ++ [first]))
            (max greatest (depthAfter before + first.gain)) := by
          rw [depths_concat, max_comm]
          exact isGreatest.insert _
        have tail := inductionHypothesis next nextGreatest (index + 1)
        rw [depthAfter_concat] at tail
        cases result : encodeFrom (index + 1) (depthAfter before + first.gain)
            (max greatest (depthAfter before + first.gain)) rest with
        | ok pair =>
          rw [result] at tail
          obtain ⟨allEncodable, isStream, allGreatest⟩ := tail
          rw [← whole] at allEncodable allGreatest
          refine ⟨allEncodable, ?_, allGreatest⟩
          rw [stream_cons, ← isStream]
        | error failure =>
          rw [result, IsEncoding, ← whole] at tail
          exact tail
      · rw [if_neg inRange]
        refine ⟨before, first, rest, rfl, encodable, ?_, ?_⟩
        · intro next
          obtain ⟨_, _, range⟩ := isEncodable_concat.mp next
          exact inRange (decide_eq_true (by omega))
        · rw [refusal, if_pos countable.wellFormed]
          rfl
    · rw [step_of_not_isCountable countable]
      refine ⟨before, first, rest, rfl, encodable, ?_, rfl⟩
      intro next
      exact countable (isEncodable_concat.mp next).2.1

theorem encode_isEncoding (instructions : List Instruction) :
    IsEncoding [] instructions (encodeFrom 0 0 0 instructions) := by
  refine encodeFrom_isEncoding isEncodable_nil ?_ 0 instructions
  rw [depths_nil]
  exact isGreatest_singleton

/-- The code of an encoding has the words of the instructions and their greatest depth. -/
theorem measures_of_encode {instructions : List Instruction} {code : CodeBlock}
    (success : encode instructions = .ok code) : IsEncodable instructions ∧
      code.words = stream instructions ∧
      IsGreatest (depths instructions) code.stackDepth.toNat := by
  have encoding := encode_isEncoding instructions
  unfold encode at success
  cases result : encodeFrom 0 0 0 instructions with
  | error failure =>
    rw [result] at success
    cases success
  | ok pair =>
    rw [result] at success encoding
    cases success
    obtain ⟨encodable, isStream, isGreatest⟩ := encoding
    refine ⟨encodable, isStream, ?_⟩
    -- The greatest depth is not below the one at the start, and it is in range.
    have nonnegative : 0 ≤ pair.2 := isGreatest.2 ⟨[], List.nil_prefix, rfl⟩
    have small := (encodable.inRange pair.2 isGreatest.1).2
    have kept : ((UInt64.ofNat pair.2.toNat).toNat : Int) = pair.2 := by
      rw [UInt64.toNat_ofNat']
      omega
    change IsGreatest (depths instructions) (UInt64.ofNat pair.2.toNat).toNat
    rw [kept]
    exact isGreatest

theorem breaksAt_of_encode {instructions : List Instruction} {failure : EncodeError}
    (failed : encode instructions = .error failure) : BreaksAt instructions failure.cause := by
  have encoding := encode_isEncoding instructions
  unfold encode at failed
  cases result : encodeFrom 0 0 0 instructions with
  | error cause =>
    rw [result] at failed encoding
    cases failed
    exact encoding
  | ok pair =>
    rw [result] at failed
    cases failed

theorem exists_encode_iff {instructions : List Instruction} :
    (∃ code, encode instructions = .ok code) ↔ IsEncodable instructions := by
  constructor
  · rintro ⟨code, success⟩
    exact (measures_of_encode success).1
  · intro encodable
    cases result : encode instructions with
    | ok code => exact ⟨code, rfl⟩
    | error failure =>
      obtain ⟨before, first, after, parts, _, notEncodable, _⟩ := breaksAt_of_encode result
      have isFront : before ++ [first] <+: instructions := ⟨after, by simp [parts]⟩
      exact absurd (encodable.of_isPrefix isFront) notEncodable

/--
Encoding succeeds on exactly the lists of instructions that can be encoded. It gives the id and the
operands of each instruction, as many words as the instructions are wide, and the greatest of the
depths, the one at the start included. Any failure is that of the first instruction which ends a
list that cannot be encoded: it has a wrong number of operands, or else its stack effect overflows.
-/
theorem encode_tracks_depth (instructions : List Instruction) :
    ((∃ code, encode instructions = .ok code) ↔ IsEncodable instructions) ∧
    (∀ code, encode instructions = .ok code →
      code.words = instructions.flatMap (fun each => each.opcode.id :: each.operands) ∧
      code.words.length = (instructions.map width).sum ∧
      IsGreatest (depths instructions) code.stackDepth.toNat) ∧
    (∀ failure, encode instructions = .error failure →
      ∃ before first after, instructions = before ++ first :: after ∧
        IsEncodable before ∧ ¬ IsEncodable (before ++ [first]) ∧
        failure.cause =
          if first.operands.length = first.opcode.operandCount then
            .stackOverflow first.mnemonic
          else
            .operandCount first.mnemonic first.opcode.operandCount first.operands.length) := by
  refine ⟨exists_encode_iff, ?_, ?_⟩
  · intro code success
    obtain ⟨_, isStream, isGreatest⟩ := measures_of_encode success
    refine ⟨isStream, ?_, isGreatest⟩
    rw [isStream, length_stream]
  · intro failure failed
    exact breaksAt_of_encode failed

/-- The depth may fall to its least value and no further, and a missing operand is refused. -/
theorem encode_tracks_depth_excursion :
    let callMany : Instruction := ⟨.metaSendCall, [9223372036854775806]⟩
    let pop : Instruction := ⟨.pop, []⟩
    let push : Instruction := ⟨.pushNil, []⟩
    let cut : Instruction := ⟨.pushInt, []⟩
    (∃ code, encode [pop, pop, push, push, push] = .ok code ∧ code.words.length = 5 ∧
      IsGreatest (depths [pop, pop, push, push, push]) code.stackDepth.toNat) ∧
    IsEncodable [callMany, pop, pop] ∧ ¬ IsEncodable [callMany, pop, pop, pop] ∧
    ∃ before first after, [push, cut, pop] = before ++ first :: after ∧
      IsEncodable before ∧ ¬ IsEncodable (before ++ [first]) := by
  intro callMany pop push cut
  have rises : encode [pop, pop, push, push, push] = .ok ⟨[16, 16, 1, 1, 1], 1⟩ := rfl
  have reaches : encode [callMany, pop, pop] = .ok ⟨[81, 9223372036854775806, 16, 16], 0⟩ := by
    decide +kernel
  have overflows : encode [callMany, pop, pop, pop] = .error (.depthOverflow pop) := by
    decide +kernel
  have refused : encode [push, cut, pop] =
      .error (.rejected 1 cut (.operandCount "push_int" 1 0)) := rfl
  refine ⟨⟨_, rises, ?_⟩, ?_, ?_, ?_⟩
  · exact ((encode_tracks_depth _).2.1 _ rises).2
  · exact (encode_tracks_depth _).1.mp ⟨_, reaches⟩
  · intro encodable
    obtain ⟨code, success⟩ := (encode_tracks_depth _).1.mpr encodable
    cases overflows.symm.trans success
  · obtain ⟨before, first, after, parts, encodable, broken, _⟩ :=
      (encode_tracks_depth _).2.2 _ refused
    exact ⟨before, first, after, parts, encodable, broken⟩

end CodeBlock

end CompiledCode
