import CompiledCode.Text.Blank

namespace CompiledCode

/-- How grave a message is, from the least to the gravest. -/
inductive Level where
  | debug
  | info
  | warn
  | error
  deriving DecidableEq, Repr

namespace Level

def rank : Level → Nat
  | debug => 0
  | info => 1
  | warn => 2
  | error => 3

def name : Level → String
  | debug => "DEBUG"
  | info => "INFO"
  | warn => "WARN"
  | error => "ERROR"

/-- A message is shown when it is at least as grave as the least level that is shown. -/
def isShown (least level : Level) : Bool := least.rank ≤ level.rank

/-- The level with a name, in letters of any case and with blanks around it. -/
def ofText? (text : String) : Option Level :=
  match Text.lowerAscii (String.ofList (Text.trim text.toList)) with
  | "debug" => some debug
  | "info" => some info
  | "warn" | "warning" => some warn
  | "error" => some error
  | _ => none

end Level

/-- A message for the user of the command line. -/
structure Notice where
  level : Level
  text : String
  deriving DecidableEq, Repr

namespace Notice

/-- The line of a message: its level in brackets and its text. -/
def line (notice : Notice) : String := "[" ++ notice.level.name ++ "] " ++ notice.text ++ "\n"

/-- The lines of the messages that are shown. -/
def render (least : Level) (notices : List Notice) : String :=
  String.join ((notices.filter fun notice => least.isShown notice.level).map line)

end Notice

end CompiledCode
