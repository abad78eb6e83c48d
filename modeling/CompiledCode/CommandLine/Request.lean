namespace CompiledCode

/-- What the arguments of the command line ask for. -/
inductive Request where
  | usage
  | disassemble (path : String)
  | compile (input : String) (output : Option String)
  deriving DecidableEq, Repr

/-- Arguments that ask for nothing. -/
inductive ArgumentError where
  | missing (option : String)
  | unexpected (argument : String)
  deriving DecidableEq, Repr

namespace Request

/-- The last output path that the options name. -/
def outputOf (output : Option String) : List String → Except ArgumentError (Option String)
  | [] => .ok output
  | option :: rest =>
    if option = "--output" ∨ option = "-o" then
      match rest with
      | [] => .error (.missing option)
      | path :: rest => outputOf (some path) rest
    else .error (.unexpected option)

/-- The first argument is an option of its own or the path of a listing. -/
def ofArguments : List String → Except ArgumentError Request
  | [] => .ok .usage
  | first :: rest =>
    if first = "--help" ∨ first = "-h" then .ok .usage
    else if first = "--disasm" ∨ first = "-d" then
      match rest with
      | [] => .error (.missing first)
      | [path] => .ok (.disassemble path)
      | _ :: extra :: _ => .error (.unexpected extra)
    else (outputOf none rest).map (.compile first)

end Request

/-- How to use the program that has this name. -/
def usageText (program : String) : String :=
  "\n".intercalate [
    "Compiled File Tool",
    "",
    "USAGE:",
    "    " ++ program ++ " <input.rbs> [OPTIONS]",
    "    " ++ program ++ " --disasm <input.rbc>",
    "",
    "ARGS:",
    "    <input.rbs>    Instruction listing to assemble",
    "",
    "OPTIONS:",
    "    -o, --output <file>     Output file path (defaults to <input>.rbc)",
    "    -d, --disasm <file>     Print the header and instructions of a compiled file",
    "    -h, --help              Print this help message",
    "",
    "ENVIRONMENT:",
    "    RBC_LOG                 Log level: debug, info, warn, error (default info)",
    "    RBC_MAX_DEPTH           Maximum marshal nesting depth (default 512)",
    "    RBC_VERIFY_CHECKSUM     Set to 0 to skip checksum verification",
    "",
    "EXAMPLES:",
    "    # Assemble to the default output name",
    "    " ++ program ++ " method.rbs",
    "",
    "    # Assemble with explicit output",
    "    " ++ program ++ " method.rbs -o cache/method.rbc",
    "",
    "    # Inspect a compiled file",
    "    " ++ program ++ " --disasm cache/method.rbc",
    ""]

end CompiledCode
