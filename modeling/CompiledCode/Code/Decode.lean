import CompiledCode.Code.Block
import CompiledCode.Instruction.Basic

/-!
Reading instructions back from words. Behind an instruction that ends the flow of control, words
that are all zero and words that are no instruction are padding and not an error.
-/

namespace CompiledCode

/-- The words behind the last instruction. -/
inductive Padding where
  | none
  /-- Only zero words are left. -/
  | zeros (offset count : Nat)
  /-- No instruction can be read at the offset. -/
  | unreadable (offset : Nat) (cause : CodeError)
  deriving DecidableEq, Repr

/-- The instructions of a code block with their word offsets. -/
structure Decoded where
  entries : List (Nat × Instruction)
  padding : Padding
  deriving DecidableEq, Repr

def Decoded.instructions (decoded : Decoded) : List Instruction := decoded.entries.map (·.2)

/-- The instruction that a word and the words after it start with. -/
def Instruction.read (offset : Nat) (word : UInt64) (rest : List UInt64) :
    Except CodeError Instruction :=
  match Opcode.ofId? word with
  | none => .error (.undecodable offset (.invalidOpcode word))
  | some opcode =>
    let operands := rest.take opcode.operandCount
    if operands.length = opcode.operandCount then .ok ⟨opcode, operands⟩
    else .error (.undecodable offset
      (.truncated opcode.mnemonic opcode.operandCount rest.length))

namespace CodeBlock

/--
The instructions from an offset on, where `ended` says whether the last instruction before it,
apart from `noop`, ends the flow of control.
-/
def decodeFrom (ended : Bool) (offset : Nat) : List UInt64 → Except CodeError Decoded
  | [] => .ok ⟨[], .none⟩
  | word :: rest =>
    if ended && (word :: rest).all (· == 0) then
      .ok ⟨[], .zeros offset (rest.length + 1)⟩
    else match Instruction.read offset word rest with
      | .error cause => if ended then .ok ⟨[], .unreadable offset cause⟩ else .error cause
      | .ok instruction => do
        let ended := if instruction.opcode = .noop then ended else instruction.opcode.endsFlow
        let decoded ← decodeFrom ended (offset + instruction.width)
          (rest.drop instruction.operands.length)
        return { decoded with entries := (offset, instruction) :: decoded.entries }
termination_by words => words.length
decreasing_by
  simp only [List.length_drop, List.length_cons]
  omega

/-- All instructions of the block. -/
def decode (code : CodeBlock) : Except CodeError Decoded := decodeFrom false 0 code.words

/-- The instruction at a word offset. -/
def instructionAt (code : CodeBlock) (offset : Nat) : Except CodeError Instruction :=
  match code.words.drop offset with
  | [] => .error (.undecodable offset (.pastEnd code.words.length))
  | word :: rest => Instruction.read offset word rest

end CodeBlock

end CompiledCode
