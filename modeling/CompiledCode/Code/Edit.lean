import CompiledCode.Code.Decode

/-!
Changing the words of a code block in place. A change is made step by step, and when a step fails
the block is left as the steps before it have made it.
-/

namespace CompiledCode

/-- The words with new ones in the place of those from an offset on. -/
def overwrite (words : List UInt64) (offset : Nat) (new : List UInt64) : List UInt64 :=
  words.take offset ++ (new ++ words.drop (offset + new.length))

namespace CodeBlock

/-- A change gives an answer or an error, and in both cases the block that it leaves. -/
abbrev Edit (α : Type) := EStateM CodeError CodeBlock α

/-- Words are written over those from an offset on. The block keeps its length and its depth. -/
def write (offset : Nat) (new : List UInt64) : Edit Unit :=
  modify fun code => { code with words := overwrite code.words offset new }

/-- The instruction at a word offset, if the new one may take its place: it may not be wider. -/
def replaceable (code : CodeBlock) (offset : Nat) (replacement : Instruction) :
    Except CodeError Instruction := do
  let old ← code.instructionAt offset
  replacement.checkOperands
  if old.width < replacement.width then
    .error (.replacementTooWide offset old.width replacement.width)
  else .ok old

/-- An instruction is written into so many words, and zero words fill the room that it leaves. -/
def fill (offset room : Nat) (instruction : Instruction) : Edit Unit := do
  write offset [instruction.opcode.id]
  write (offset + 1) instruction.operands
  write (offset + instruction.width) (List.replicate (room - instruction.width) 0)

/-- The instruction at a word offset is overwritten and returned. -/
def replace (offset : Nat) (replacement : Instruction) : Edit Instruction := do
  let code ← get
  let old ← MonadExcept.ofExcept (code.replaceable offset replacement)
  fill offset old.width replacement
  return old

end CodeBlock

end CompiledCode
