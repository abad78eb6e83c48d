import CompiledCode.Listing.Error
import CompiledCode.Text.Blank
import CompiledCode.Text.Number

namespace CompiledCode.Listing

/-- A place in a listing and what is wrong there. -/
structure Diagnostic where
  file : String
  line : Nat
  column : Nat
  message : String
  deriving DecidableEq, Repr

/-- The line of the source, and under it a mark at the column. -/
def Diagnostic.excerpt (diagnostic : Diagnostic) (text : List Char) : String :=
  let shown := String.ofList (Text.dropEndWhile (· = '\r') text)
  let margin := String.ofList (List.replicate (diagnostic.column - 1) ' ')
  "  |\n" ++ Text.padStart ' ' 4 (toString diagnostic.line) ++ " | " ++ shown ++ "\n" ++
    "  | " ++ margin ++ "^\n"

/-- The message, the place, and the line of the source when it has that line. -/
def Diagnostic.render (diagnostic : Diagnostic) (source : String) : String :=
  s!"error: {diagnostic.message}\n" ++
    s!" --> {diagnostic.file}:{diagnostic.line}:{diagnostic.column}\n" ++
    match (Text.lines source.toList)[diagnostic.line - 1]? with
    | some text => diagnostic.excerpt text
    | none => ""

/-- An error of a listing in a file, as it is shown. -/
def AssemblyError.report (error : AssemblyError) (file source : String) : String :=
  match error.place? with
  | some (line, column, message) => (Diagnostic.mk file line column message).render source
  | none => "error: " ++ error.message

end CompiledCode.Listing
