import CompiledCode.Instruction.Table

namespace CompiledCode

/-- An opcode with operand words, whose number need not be the one that the table asks for. -/
structure Instruction where
  opcode : Opcode
  operands : List UInt64
  deriving DecidableEq, Repr

namespace Instruction

def mnemonic (instruction : Instruction) : String := instruction.opcode.mnemonic

/-- Words that the instruction takes in a code block. -/
def width (instruction : Instruction) : Nat := 1 + instruction.operands.length

/-- The id of the opcode followed by the operands. -/
def words (instruction : Instruction) : List UInt64 :=
  instruction.opcode.id :: instruction.operands

theorem length_words (instruction : Instruction) :
    instruction.words.length = instruction.width := by
  simp [words, width, Nat.add_comm]

/-- The number of operands is compared with the table. -/
def checkOperands (instruction : Instruction) : Except CodeError Unit :=
  let expected := instruction.opcode.operandCount
  if instruction.operands.length = expected then .ok ()
  else .error (.operandCount instruction.mnemonic expected instruction.operands.length)

def stackConsumed (instruction : Instruction) : Except CodeError Nat :=
  instruction.opcode.descriptor.consumed.resolve instruction.mnemonic instruction.operands none

def stackProduced (instruction : Instruction) : Except CodeError Nat :=
  instruction.opcode.descriptor.produced.resolve instruction.mnemonic instruction.operands none

/-- The slots given less the slots taken, where each count has to stay below 2^63. -/
def stackDifference (instruction : Instruction) : Except CodeError Int := do
  let produced ← instruction.stackProduced
  let consumed ← instruction.stackConsumed
  if produced < 2 ^ 63 ∧ consumed < 2 ^ 63 then .ok (produced - consumed)
  else .error (.stackOverflow instruction.mnemonic)

/-- The mnemonic and the operands, as in a listing. -/
def text (instruction : Instruction) : String :=
  match instruction.operands with
  | [] => instruction.mnemonic
  | operands => instruction.mnemonic ++ " " ++ ", ".intercalate (operands.map toString)

end Instruction

end CompiledCode
