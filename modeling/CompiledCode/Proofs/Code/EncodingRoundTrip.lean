import Mathlib.Data.List.DropRight
import CompiledCode.Proofs.Code.Decoding
import CompiledCode.Proofs.Code.StackDepth

/-!
Decoding the words of a list of instructions gives the list back, up to padding. Instructions that
do nothing look like zero words, so those at the end are lost exactly when the flow has ended before
them, and neither a zero operand nor an instruction in the middle is ever taken for padding.
-/

namespace CompiledCode

namespace Fragment

/-- The instructions of a forest of groups, from its first leaf to its last. -/
inductive Leaves : List Fragment → List Instruction → Prop where
  | nil : Leaves [] []
  | single {instruction : Instruction} {fragments : List Fragment} {rest : List Instruction}
    (after : Leaves fragments rest) : Leaves (.single instruction :: fragments) (instruction :: rest)
  | group {inner fragments : List Fragment} {within rest : List Instruction}
    (leaves : Leaves inner within) (after : Leaves fragments rest) :
    Leaves (.group inner :: fragments) (within ++ rest)

theorem Leaves.flatten_eq {fragments : List Fragment} {instructions : List Instruction}
    (leaves : Leaves fragments instructions) : flatten fragments = instructions := by
  induction leaves with
  | nil => rfl
  | single _ inductionHypothesis =>
    rw [flatten, Fragment.instructions, inductionHypothesis, List.singleton_append]
  | group _ _ innerHypothesis restHypothesis =>
    rw [flatten, Fragment.instructions, innerHypothesis, restHypothesis]

theorem leaves_flatten : ∀ fragments : List Fragment, Leaves fragments (flatten fragments)
  | [] => .nil
  | .single instruction :: rest => by
    rw [flatten, Fragment.instructions, List.singleton_append]
    exact .single (leaves_flatten rest)
  | .group inner :: rest => by
    rw [flatten, Fragment.instructions]
    exact .group (leaves_flatten inner) (leaves_flatten rest)

/-- Every forest has leaves, and only one list of them. -/
theorem leaves_iff {fragments : List Fragment} {instructions : List Instruction} :
    Leaves fragments instructions ↔ flatten fragments = instructions := by
  constructor
  · exact Leaves.flatten_eq
  · rintro rfl
    exact leaves_flatten fragments

end Fragment

namespace Instruction

/-- The instructions without the padding at their end, if the flow has ended before it. -/
def strip (instructions : List Instruction) : List Instruction :=
  match lastActive? instructions with
  | some last =>
    if last.opcode ∈ [.ret, .halt, .raiseExc] then instructions.rdropWhile (·.opcode = .noop)
    else instructions
  | none => instructions

/-- The same where `ended` tells of the flow before the instructions. -/
def stripFrom (ended : Bool) (instructions : List Instruction) : List Instruction :=
  if endedAfter ended instructions then instructions.rdropWhile (·.opcode = .noop)
  else instructions

theorem stripFrom_false (instructions : List Instruction) :
    stripFrom false instructions = strip instructions := by
  rw [stripFrom, strip, endedAfter_eq]
  cases lastActive? instructions with
  | none => rfl
  | some last => simp only [Opcode.endsFlow_iff]

example : strip [idle, ⟨.ret, []⟩, idle, idle] = [idle, ⟨.ret, []⟩] := by decide

theorem stripFrom_noops {instructions : List Instruction}
    (noops : ∀ instruction ∈ instructions, instruction.opcode = .noop) :
    stripFrom true instructions = [] := by
  rw [stripFrom, endedAfter_noops noops, if_pos rfl, List.rdropWhile_eq_nil_iff]
  exact fun instruction member => decide_eq_true (noops instruction member)

/-- An item stays at the front unless all items are dropped. -/
theorem rdropWhile_cons {α : Type} {drop : α → Bool} {first : α} {rest : List α}
    (kept : ¬ ∀ item ∈ first :: rest, drop item = true) :
    (first :: rest).rdropWhile drop = first :: rest.rdropWhile drop := by
  induction rest using List.reverseRecOn with
  | nil =>
    have firstKept : ¬ drop first = true := by simpa using kept
    rw [List.rdropWhile_singleton, if_neg firstKept, List.rdropWhile_nil]
  | append_singleton before last inductionHypothesis =>
    rw [← List.cons_append]
    by_cases dropped : drop last = true
    · rw [List.rdropWhile_concat_pos _ _ _ dropped, List.rdropWhile_concat_pos _ _ _ dropped]
      refine inductionHypothesis fun all => kept ?_
      rw [← List.cons_append, List.forall_mem_append]
      exact ⟨all, List.forall_mem_singleton.mpr dropped⟩
    · rw [List.rdropWhile_concat_neg _ _ _ dropped, List.rdropWhile_concat_neg _ _ _ dropped,
        List.cons_append]

theorem stripFrom_cons {ended : Bool} {first : Instruction} {rest : List Instruction}
    (goesOn : ¬ (ended = true ∧ ∀ instruction ∈ first :: rest, instruction.opcode = .noop)) :
    stripFrom ended (first :: rest) = first :: stripFrom (endedAfter ended [first]) rest := by
  have split : endedAfter ended (first :: rest) = endedAfter (endedAfter ended [first]) rest := rfl
  rw [stripFrom, stripFrom, ← split]
  by_cases isEnded : endedAfter ended (first :: rest) = true
  · rw [if_pos isEnded, if_pos isEnded]
    refine rdropWhile_cons fun all => goesOn ?_
    have noops : ∀ instruction ∈ first :: rest, instruction.opcode = .noop :=
      fun instruction member => of_decide_eq_true (all instruction member)
    rw [endedAfter_noops noops] at isEnded
    exact ⟨isEnded, noops⟩
  · rw [if_neg isEnded, if_neg isEnded]

end Instruction

namespace CodeBlock

open Instruction

theorem of_encode_ok {instructions : List Instruction} {code : CodeBlock}
    (success : encode instructions = .ok code) :
    (∀ instruction ∈ instructions, instruction.IsWellFormed) ∧
      code.words = stream instructions := by
  obtain ⟨encodable, isStream, _⟩ := measures_of_encode success
  exact ⟨fun instruction member => (encodable.countable instruction member).wellFormed, isStream⟩

/-- The words of well-formed instructions are decoded as these without the padding at their end. -/
theorem decodeFrom_stream {instructions : List Instruction}
    (wellFormed : ∀ instruction ∈ instructions, instruction.IsWellFormed) (ended : Bool)
    (offset : Nat) : ∃ padding, decodeFrom ended offset (stream instructions) =
      .ok ⟨placed offset (stripFrom ended instructions), padding⟩ := by
  induction instructions generalizing ended offset with
  | nil =>
    refine ⟨.none, ?_⟩
    cases ended <;> exact decodeFrom_nil
  | cons first rest inductionHypothesis =>
    obtain ⟨firstFits, restFits⟩ := List.forall_mem_cons.mp wellFormed
    -- The words that are left are all zero exactly when nothing but padding is left.
    by_cases padded : ended = true ∧ ∀ instruction ∈ first :: rest, instruction.opcode = .noop
    · obtain ⟨rfl, noops⟩ := padded
      rw [stripFrom_noops noops]
      exact decodeFrom_zeros ((stream_eq_zero_iff wellFormed).mpr noops)
    · have goesOn : ¬ (ended = true ∧ ∀ word ∈ first.words ++ stream rest, word = 0) := by
        rintro ⟨isEnded, zeros⟩
        exact padded ⟨isEnded, (stream_eq_zero_iff wellFormed).mp zeros⟩
      obtain ⟨padding, tail⟩ :=
        inductionHypothesis restFits (endedAfter ended [first]) (offset + first.width)
      refine ⟨padding, ?_⟩
      rw [stream_cons, decodeFrom_words firstFits goesOn, tail, stripFrom_cons padded]
      rfl

/--
Groups of instructions are encoded as their leaves, and the words are decoded as the leaves again.
Zero words behind them are instructions too, unless the flow has ended before.
-/
theorem decode_encodeFragments {fragments : List Fragment} {instructions : List Instruction}
    (leaves : Fragment.Leaves fragments instructions) :
    encodeFragments fragments = encode instructions ∧
    ∀ code, encodeFragments fragments = .ok code → ∀ (count : Nat) (stackDepth : UInt64),
      ∃ decoded, decode ⟨code.words ++ List.replicate count 0, stackDepth⟩ = .ok decoded ∧
        decoded.instructions = strip (instructions ++ List.replicate count idle) ∧
        decoded.entries = placed 0 decoded.instructions := by
  have flat : encodeFragments fragments = encode instructions := by
    rw [encodeFragments, Fragment.leaves_iff.mp leaves]
  refine ⟨flat, fun code success count stackDepth => ?_⟩
  rw [flat] at success
  obtain ⟨fits, isStream⟩ := of_encode_ok success
  have allFit : ∀ instruction ∈ instructions ++ List.replicate count idle,
      instruction.IsWellFormed := by
    rw [List.forall_mem_append]
    refine ⟨fits, fun instruction member => ?_⟩
    rw [List.eq_of_mem_replicate member]
    rfl
  obtain ⟨padding, decoded⟩ := decodeFrom_stream allFit false 0
  rw [stripFrom_false, stream_append, stream_replicate_idle, ← isStream] at decoded
  refine ⟨_, decoded, map_snd_placed 0 _, ?_⟩
  rw [Decoded.instructions, map_snd_placed]

/-- The zero operand of the first instruction stays and the zero words behind the return go. -/
theorem decode_encodeFragments_return :
    let push : Instruction := ⟨.pushInt, [0]⟩
    let leave : Instruction := ⟨.ret, []⟩
    let fragments : List Fragment := [.group [.single push, .group []], .single leave]
    Fragment.Leaves fragments [push, leave] ∧
    encodeFragments fragments = .ok ⟨[4, 0, 12], 1⟩ ∧
    encode [push, leave] = .ok ⟨[4, 0, 12], 1⟩ ∧
    ∃ decoded, decode ⟨[4, 0, 12, 0, 0], 7⟩ = .ok decoded ∧
      decoded.entries = [(0, push), (2, leave)] := by
  intro push leave fragments
  have leaves : Fragment.Leaves fragments [push, leave] :=
    .group (.single (.group .nil .nil)) (.single .nil)
  have encoded : encodeFragments fragments = .ok ⟨[4, 0, 12], 1⟩ := by rfl
  obtain ⟨flat, decodes⟩ := decode_encodeFragments leaves
  obtain ⟨decoded, success, stripped, entries⟩ := decodes _ encoded 2 7
  refine ⟨leaves, encoded, flat ▸ encoded, decoded, success, ?_⟩
  rw [entries, stripped]
  rfl

end CodeBlock

end CompiledCode
