import CompiledCode.Archive.Dump
import CompiledCode.CommandLine.Report
import CompiledCode.Float.Shortest

namespace CompiledCode

/-- A literal as a note of a listing: its value if it has a short text, and else its kind. -/
def Value.note : Value → String
  | .string bytes => Text.quote (Text.Utf8.decodeLossy bytes)
  | .symbol name => symbolText name
  | .integer value => toString value.toInt
  | .bigInteger value => toString value
  | .float x => x.text
  | value => value.kindName

namespace Inspection

/-- A line for a field that is known. -/
def field (label : String) (text : Option String) : String :=
  match text with
  | some text => label ++ text ++ "\n"
  | none => ""

/-- The numbered literals under a heading, or nothing when there are none. -/
def literalLines (literals : List Value) : String :=
  if literals.isEmpty then ""
  else "literals:\n" ++ String.join (literals.zipIdx.map fun (literal, index) =>
    s!"  [{index}] {literal.note}\n")

/-- The header of the file, and what is known of the method but its code. -/
def summary (header : Header) (method : Method) : String :=
  s!"magic:      {header.magic}\nversion:    {header.version}\n" ++
    s!"checksum:   {header.checksum}\n" ++
    field "name:       " (method.name.symbol?.map symbolText) ++
    field "file:       " (method.file.symbol?.map symbolText) ++
    field "stack size: " (method.stackSize.integer?.map fun size => toString size.toInt) ++
    literalLines method.literalValues

/-- The instructions under a heading, with the literals as notes. -/
def codeLines (method : Method) (decoded : Decoded) : String :=
  "code:\n" ++ decoded.render fun index => (method.literal? index).map Value.note

/-- Words that were taken for padding are worth a remark. -/
def paddingRemarks : Padding → List Remark
  | .none => []
  | .zeros offset count => [Report.debug s!"ignoring {count} padding words at offset {offset}"]
  | .unreadable offset cause =>
    [Report.debug s!"treating words from offset {offset} as padding: {cause.message}"]

/-- A body is decoded only after its checksum is found to fit. -/
def decodingRemarks (file : CompiledFile) : List Remark :=
  match file.verify with
  | .ok () => [Report.debug s!"decoding {file.rawBody.length} byte compiled file body"]
  | .error _ => []

/-- The header and the instructions of a compiled file. -/
def ofFile (file : CompiledFile) : Report :=
  match file.method.1 with
  | .error failure =>
    .failure "" (decodingRemarks file ++ [Report.error failure.message])
  | .ok method =>
    let text := summary file.header method
    match method.disassemble with
    | .error failure => .failure text (decodingRemarks file ++ [Report.error failure.message])
    | .ok decoded =>
      .success (text ++ codeLines method decoded)
        (decodingRemarks file ++ paddingRemarks decoded.padding)

end Inspection

end CompiledCode
