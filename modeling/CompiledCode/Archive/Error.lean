import CompiledCode.Bytes.ReadError
import CompiledCode.Instruction.Error
import CompiledCode.Storage.FileStore

namespace CompiledCode

/-- The lines of the header. -/
inductive HeaderField where
  | magic
  | version
  | checksum
  deriving DecidableEq, Repr

def HeaderField.name : HeaderField → String
  | magic => "magic"
  | version => "version"
  | checksum => "checksum"

/-- What is wrong with a compiled file. -/
inductive FileError where
  | missingLine (field : HeaderField)
  | invalidText (field : HeaderField)
  | unsupportedMagic (found : String)
  | invalidVersion (text : String)
  | unsupportedFormat (version : UInt64)
  | checksumMismatch (expected actual : String)
  | read (cause : ReadError)
  | notMethod (found : String)
  | notCode (found : String)
  | code (cause : CodeError)
  | io (path : String) (fault : SystemFault)
  deriving DecidableEq, Repr

def FileError.message : FileError → String
  | missingLine field => s!"bad compiled file header: missing {field.name} line"
  | invalidText field => s!"bad compiled file header: {field.name} line is not valid UTF-8"
  | unsupportedMagic found => "unsupported file magic version: " ++ found
  | invalidVersion text =>
    "bad compiled file header: version " ++ Text.quote text ++ " is not an integer"
  | unsupportedFormat version => s!"unsupported file format version: {version}"
  | checksumMismatch expected actual =>
    s!"checksum mismatch: header {expected}, body {actual}"
  | read cause => cause.message
  | notMethod found => "expected a compiled method, found " ++ found
  | notCode found => "expected a instruction sequence, found " ++ found
  | code cause => cause.message
  | io path fault => s!"io error on {path}: {fault.message}"

end CompiledCode
