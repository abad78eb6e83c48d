import CompiledCode.Code.Block
import CompiledCode.Instruction.Basic

namespace CompiledCode

/-- Instructions in groups; a group has no words of its own. -/
inductive Fragment where
  | single (instruction : Instruction)
  | group (fragments : List Fragment)

mutual

/-- The instructions of a fragment in order. -/
def Fragment.instructions : Fragment → List Instruction
  | .single instruction => [instruction]
  | .group fragments => Fragment.flatten fragments

/-- The instructions of several fragments in order. -/
def Fragment.flatten : List Fragment → List Instruction
  | [] => []
  | fragment :: rest => fragment.instructions ++ Fragment.flatten rest

end

/-- Why a list of instructions has no words. -/
inductive EncodeError where
  /-- The instruction at the index has no encoding or no stack effect of its own. -/
  | rejected (index : Nat) (instruction : Instruction) (cause : CodeError)
  /-- The stack depth after the instruction does not have 64 bits. -/
  | depthOverflow (instruction : Instruction)
  deriving DecidableEq, Repr

def EncodeError.cause : EncodeError → CodeError
  | rejected _ _ cause => cause
  | depthOverflow instruction => .stackOverflow instruction.mnemonic

/-- A stack depth is an integer of 64 bits. -/
def isDepth (depth : Int) : Bool := -(2 ^ 63) ≤ depth ∧ depth < 2 ^ 63

/-- The stack effect of an instruction with the number of operands that the table asks for. -/
def Instruction.step (instruction : Instruction) : Except CodeError Int := do
  instruction.checkOperands
  instruction.stackDifference

namespace CodeBlock

/-- The words of the instructions and the greatest depth, from a depth reached before them. -/
def encodeFrom (index : Nat) (depth greatest : Int) :
    List Instruction → Except EncodeError (List UInt64 × Int)
  | [] => .ok ([], greatest)
  | instruction :: rest =>
    match instruction.step with
    | .error cause => .error (.rejected index instruction cause)
    | .ok step =>
      let reached := depth + step
      if isDepth reached then do
        let (words, greatest) ← encodeFrom (index + 1) reached (max greatest reached) rest
        return (instruction.words ++ words, greatest)
      else .error (.depthOverflow instruction)

/--
The words of a list of instructions. The depth starts at zero, and the greatest depth that the
instructions reach is kept with the words.
-/
def encode (instructions : List Instruction) : Except EncodeError CodeBlock := do
  let (words, greatest) ← encodeFrom 0 0 0 instructions
  return ⟨words, .ofNat greatest.toNat⟩

/-- Groups are encoded as the instructions that they hold. -/
def encodeFragments (fragments : List Fragment) : Except EncodeError CodeBlock :=
  encode (Fragment.flatten fragments)

end CodeBlock

end CompiledCode
