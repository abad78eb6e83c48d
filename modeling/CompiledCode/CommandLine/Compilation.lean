import CompiledCode.Archive.Dump
import CompiledCode.CommandLine.Report
import CompiledCode.Listing.Assembly
import CompiledCode.Listing.Diagnostic
import CompiledCode.Storage.Path

namespace CompiledCode

def Listing.Literal.value : Listing.Literal → Value
  | string bytes => .string bytes
  | symbol name => .symbol name

namespace Compilation

/-- The method of an assembled listing, which is named after the file that holds the listing. -/
def method (input : String) (assembly : Listing.Assembly) : Method :=
  ((MethodRecord.ofCode (Text.Utf8.encode (Path.stem input)) assembly.code).withLiterals
    (assembly.literals.map (·.value))).withFile (Text.Utf8.encode input)

/-- A listing is compiled to a file beside it unless another path is given. -/
def defaultOutput (input : String) : String :=
  Path.join ((Path.parent? input).getD ".") (Path.stem input ++ ".rbc")

/-- The directory that has to be there for the output. -/
def outputDirectory? (output : String) : Option String :=
  (Path.parent? output).filter (!·.isEmpty)

/-- An instruction that cannot be encoded is worth a remark. -/
def encodingRemarks : Listing.AssemblyError → List Remark
  | .unencodable (.rejected index instruction cause) =>
    [Report.debug
      s!"encode failed at instruction {index} ({instruction.text}): {cause.message}"]
  | _ => []

/-- The report on a listing that cannot be assembled. -/
def rejection (input source : String) (failure : Listing.AssemblyError) : Report :=
  .failure "" (encodingRemarks failure ++ [.plain (failure.report input source ++ "\n")])

/-- The report on what has become of the output. -/
def conclusion (input output : String) : Except FileError DumpOutcome → Report
  | .ok (.written bytes) =>
    .success "" [Report.debug s!"wrote {bytes} bytes to {output}",
      Report.info s!"Compiled {input} -> {output} ({bytes} bytes)"]
  | .ok .skipped =>
    .success "" [Report.warn
        s!"skipping compiled file {output}: {SystemFault.permissionDenied.message}",
      Report.warn s!"{output} was not writable; nothing written"]
  | .error failure =>
    .failure "" [Report.error s!"Failed to write output file: {failure.message}"]

/-- The listing is read, assembled and written. An input that is no text is refused silently. -/
def build {m : Type → Type} [Monad m] [FileStore m] (input output : String) : m Report := do
  match ← FileStore.read input with
  | .error _ => return .failure "" []
  | .ok bytes =>
    match Text.Utf8.decode? bytes with
    | none => return .failure "" []
    | some source =>
      match Listing.assemble source with
      | .error failure => return rejection input source failure
      | .ok assembly =>
        let outcome ← dump (method input assembly) output
        return conclusion input output outcome

/-- The input and the directory of the output have to be there. -/
def run {m : Type → Type} [Monad m] [FileStore m] (input : String) (output : Option String) :
    m Report := do
  if ← FileStore.present input then
    let output := output.getD (defaultOutput input)
    match outputDirectory? output with
    | none => build input output
    | some directory =>
      if ← FileStore.present directory then build input output
      else return .failure "" [Report.error s!"Output directory does not exist: {directory}"]
  else return .failure "" [Report.error s!"Input file does not exist: {input}"]

end Compilation

end CompiledCode
