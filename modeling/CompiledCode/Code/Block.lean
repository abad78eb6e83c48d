namespace CompiledCode

/--
The words of a sequence of instructions and the operand stack depth that they reach.
The words alone decide whether two blocks are the same code.
-/
structure CodeBlock where
  words : List UInt64
  stackDepth : UInt64
  deriving DecidableEq, Repr

namespace CodeBlock

/-- Words whose stack depth is not known count as depth zero. -/
def ofWords (words : List UInt64) : CodeBlock := ⟨words, 0⟩

def sameCode (first second : CodeBlock) : Bool := first.words = second.words

end CodeBlock

end CompiledCode
