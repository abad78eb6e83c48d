import CompiledCode.Bytes.Hexadecimal
import CompiledCode.Text.Quoted

namespace CompiledCode

/-- What stops a read of a marshalled value, with the byte offset or the count it is about. -/
inductive ReadError where
  | unexpectedEnd (offset : Nat)
  | invalidVarint (offset : Nat)
  | invalidFloat (text : String)
  | unsupportedTag (tag : UInt8) (offset : Nat)
  | unsupportedRecord (version : UInt64)
  | recordArity (found : Nat)
  | nestingTooDeep (limit : Nat)
  | trailingBytes (count : Nat)
  deriving DecidableEq, Repr

def ReadError.message : ReadError → String
  | unexpectedEnd offset => s!"unexpected end of input at byte {offset}"
  | invalidVarint offset => s!"invalid varint at byte {offset}"
  | invalidFloat text => "invalid float encoding " ++ Text.quote text
  | unsupportedTag tag offset =>
    s!"unsupported marshal tag 0x{byteHexadecimal tag} at byte {offset}"
  | unsupportedRecord version => s!"unsupported compiled method version: {version}"
  | recordArity found => s!"CompiledMethod record expects 14 fields, found {found}"
  | nestingTooDeep limit => s!"value nesting exceeds maximum depth {limit}"
  | trailingBytes count => s!"{count} trailing bytes after body"

end CompiledCode
