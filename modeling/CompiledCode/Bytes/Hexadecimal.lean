import CompiledCode.Text.Number

namespace CompiledCode

/-- Two lower-case hexadecimal digits. -/
def byteHexadecimal (byte : UInt8) : String :=
  Text.padStart '0' 2 (Text.hexadecimal byte.toNat)

/-- Two lower-case hexadecimal digits for each byte. -/
def bytesHexadecimal (bytes : List UInt8) : String :=
  String.join (bytes.map byteHexadecimal)

end CompiledCode
