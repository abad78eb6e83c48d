namespace CompiledCode

/-- Why no instruction can be read at a word offset. -/
inductive DecodeFault where
  | invalidOpcode (id : UInt64)
  | truncated (mnemonic : String) (expected remaining : Nat)
  | pastEnd (length : Nat)
  deriving DecidableEq, Repr

def DecodeFault.message : DecodeFault → String
  | invalidOpcode id => s!"invalid opcode {id}"
  | truncated mnemonic expected remaining =>
    s!"{mnemonic} needs {expected} operands, {remaining} words remain"
  | pastEnd length => s!"offset past end of sequence of {length} words"

/-- What is wrong with an instruction or with the words of a code block. -/
inductive CodeError where
  | invalidOpcode (id : UInt64)
  | invalidMnemonic (name : String)
  | operandCount (mnemonic : String) (expected actual : Nat)
  | registerEffect (mnemonic : String)
  | stackOverflow (mnemonic : String)
  | undecodable (offset : Nat) (fault : DecodeFault)
  | replacementTooWide (offset oldWidth newWidth : Nat)
  deriving DecidableEq, Repr

def CodeError.message : CodeError → String
  | invalidOpcode id => s!"invalid opcode {id}"
  | invalidMnemonic name => "unknown instruction: " ++ name
  | operandCount mnemonic expected actual =>
    s!"operand count mismatch for {mnemonic}: expected {expected}, got {actual}"
  | registerEffect mnemonic => s!"stack effect of {mnemonic} depends on the argument register"
  | stackOverflow mnemonic => s!"stack effect of {mnemonic} overflows"
  | undecodable offset fault => s!"decode error at word {offset}: " ++ fault.message
  | replacementTooWide offset oldWidth newWidth =>
    s!"cannot replace instruction at {offset}: new width {newWidth} exceeds old width {oldWidth}"

end CompiledCode
