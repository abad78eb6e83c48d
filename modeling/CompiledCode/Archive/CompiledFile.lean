import CompiledCode.Archive.Digest
import CompiledCode.Archive.Error
import CompiledCode.Settings.Config
import CompiledCode.Value.Method
import CompiledCode.Value.Unmarshal

/-!
A compiled file has three lines of header, which name the format, its version and the checksum of
the body, and then the body, which is one marshalled value. The body is decoded when it is first
asked for.
-/

namespace CompiledCode

def magicLine : String := "!RBIX"

def formatVersion : UInt64 := 0

/-- The checksum line of a file that has no checksum. -/
def uncheckedLine : String := "x"

/-- The digest of a body as the header shows it. -/
def checksumOf (body : List UInt8) : String := bytesHexadecimal (Digest.ofBytes body)

/-- A checksum line fits a digest when it is absent or has its digits, in letters of any case. -/
def checksumFits (header digest : String) : Bool :=
  header == uncheckedLine || Text.lowerAscii header == digest

structure Header where
  magic : String
  version : UInt64
  checksum : String
  deriving DecidableEq, Repr

/-- A compiled file, and the value of its body once it is decoded. -/
structure CompiledFile where
  header : Header
  rawBody : List UInt8
  config : Config
  decoded : Option Value

namespace CompiledFile

/-- The bytes of the file of a method. -/
def encode (method : Method) : List UInt8 :=
  let body := (Value.method method).marshal
  Text.Utf8.encode s!"{magicLine}\n{formatVersion}\n{checksumOf body}\n" ++ body

/-- A line of the header without the blanks around it, and the place after it. -/
def headerLine (field : HeaderField) (cursor : Cursor) : Except FileError (String × Cursor) :=
  match Read.line cursor with
  | .error _ _ => .error (.missingLine field)
  | .ok bytes next =>
    match Text.Utf8.decode? bytes with
    | none => .error (.invalidText field)
    | some text => .ok (String.ofList (Text.trim text.toList), next)

/-- The three lines have to be there before what they say is looked at. -/
def parse (config : Config) (bytes : List UInt8) : Except FileError CompiledFile := do
  let (magic, cursor) ← headerLine .magic (.ofBytes bytes)
  let (versionText, cursor) ← headerLine .version cursor
  let (checksum, cursor) ← headerLine .checksum cursor
  if magic ≠ magicLine then .error (.unsupportedMagic magic)
  else match Text.word? versionText.toList with
    | none => .error (.invalidVersion versionText)
    | some version =>
      if version ≠ formatVersion then .error (.unsupportedFormat version)
      else .ok ⟨⟨magic, version, checksum⟩, cursor.rest, config, none⟩

def isDecoded (file : CompiledFile) : Bool := file.decoded.isSome

/-- The checksum is compared with the digest of the body if the settings ask for it. -/
def verify (file : CompiledFile) : Except FileError Unit :=
  if file.config.verifyChecksum && file.header.checksum != uncheckedLine then
    let digest := checksumOf file.rawBody
    if checksumFits file.header.checksum digest then .ok ()
    else .error (.checksumMismatch file.header.checksum digest)
  else .ok ()

/-- The value of the body for a reader of values, which is asked only when the checksum fits. -/
def decodeBodyWith (reader : Nat → List UInt8 → Except ReadError Value) (file : CompiledFile) :
    Except FileError Value := do
  file.verify
  (reader file.config.maxDepth file.rawBody).mapError .read

/-- The value of the body. -/
def decodeBody (file : CompiledFile) : Except FileError Value :=
  file.decodeBodyWith Value.unmarshal

/-- The value of the body, which is decoded unless that has been done before. -/
def body (file : CompiledFile) : Except FileError Value × CompiledFile :=
  match file.decoded with
  | some value => (.ok value, file)
  | none =>
    match file.decodeBody with
    | .error failure => (.error failure, file)
    | .ok value => (.ok value, { file with decoded := some value })

/-- The method that the body has to be. -/
def methodOf (value : Value) : Except FileError Method :=
  match value with
  | .method record => .ok record
  | value => .error (.notMethod value.kindName)

def method (file : CompiledFile) : Except FileError Method × CompiledFile :=
  let (result, file) := file.body
  (result >>= methodOf, file)

end CompiledFile

/-- The instructions of a method. -/
def MethodRecord.disassemble (method : Method) : Except FileError Decoded :=
  match method.code with
  | .code block => block.decode.mapError .code
  | value => .error (.notCode value.kindName)

end CompiledCode
