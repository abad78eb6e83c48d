import CompiledCode.CommandLine.Compilation
import CompiledCode.CommandLine.Inspection
import CompiledCode.CommandLine.Request

/-!
The program: a run is decided by the arguments, the environment and the files, and it gives an
exit status and two texts.
-/

namespace CompiledCode

/-- What a run leaves for the user. -/
structure Transcript where
  status : UInt32
  output : String
  errors : String
  deriving DecidableEq, Repr

namespace Program

/-- The remark that arguments ask for nothing, and how to use the program if one was unexpected. -/
def refusal (program : String) : ArgumentError → Report
  | .missing option => .failure "" [Report.error (option ++ " requires an argument")]
  | .unexpected argument =>
    .failure "" [Report.error ("Unexpected argument: " ++ argument ++ "\n"),
      Report.info (usageText program)]

/-- A compiled file is read and shown. -/
def inspect {m : Type → Type} [Monad m] [FileStore m] (config : Config) (path : String) :
    m Report := do
  match ← load config path with
  | .error failure => return .failure "" [Report.error failure.message]
  | .ok file => return Inspection.ofFile file

/-- A request is carried out. A run that was asked for nothing at all has failed. -/
def carryOut {m : Type → Type} [Monad m] [FileStore m] (program : String) (config : Config)
    (arguments : List String) : m Report :=
  match Request.ofArguments arguments with
  | .error problem => return refusal program problem
  | .ok .usage =>
    return ⟨if arguments.isEmpty then 1 else 0, "", [Report.info (usageText program)]⟩
  | .ok (.disassemble path) => inspect config path
  | .ok (.compile input output) => Compilation.run input output

/-- The settings play no part in showing how to use the program. -/
def settings (environment : Environment) (arguments : List String) : Config × List Notice :=
  match Request.ofArguments arguments with
  | .ok .usage => (.default, [])
  | _ => Config.ofEnvironment environment

/-- A run of the program with this name. -/
def run {m : Type → Type} [Monad m] [FileStore m] (program : String) (environment : Environment)
    (arguments : List String) : m Transcript := do
  let (config, warnings) := settings environment arguments
  let report ← carryOut program config arguments
  return ⟨report.status, report.output,
    Notice.render Config.default.logLevel warnings ++ report.errors config.logLevel⟩

end Program

end CompiledCode
