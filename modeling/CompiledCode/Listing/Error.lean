import CompiledCode.Code.Encode

namespace CompiledCode.Listing

/-- What is wrong with a token of a listing. -/
inductive TokenFault where
  | instruction (cause : CodeError)
  | duplicateLabel (label : String)
  | undefinedLabel (label : String)
  | invalidOperand (kind : OperandKind) (token : String)
  deriving DecidableEq, Repr

def TokenFault.message : TokenFault → String
  | instruction cause => cause.message
  | duplicateLabel label => "duplicate label: " ++ label
  | undefinedLabel label => "undefined label: " ++ label
  | invalidOperand kind token => "invalid " ++ kind.name ++ " operand: " ++ token

/-- Why a listing has no code, with the line and the byte column where that shows. -/
inductive AssemblyError where
  | refused (line column : Nat) (fault : TokenFault)
  | unterminatedString (line column : Nat)
  | unencodable (failure : EncodeError)
  deriving DecidableEq, Repr

namespace AssemblyError

def unterminatedMessage : String := "unterminated string literal (missing closing quote)"

/-- The line, the column and the message of an error that has a place in the listing. -/
def place? : AssemblyError → Option (Nat × Nat × String)
  | refused line column fault => some (line, column, fault.message)
  | unterminatedString line column => some (line, column, unterminatedMessage)
  | unencodable _ => none

def message : AssemblyError → String
  | refused line column fault => s!"line {line}:{column}: " ++ fault.message
  | unterminatedString line column => s!"line {line}:{column}: " ++ unterminatedMessage
  | unencodable failure => failure.cause.message

end AssemblyError

end CompiledCode.Listing
