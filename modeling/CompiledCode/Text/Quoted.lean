import CompiledCode.Text.Number
import CompiledCode.Text.Printable

namespace CompiledCode.Text

/-- A character inside quotes: itself, a two-character escape, or its code point in braces. -/
def quoteChar (c : Char) : String :=
  match c with
  | '\t' => "\\t"
  | '\r' => "\\r"
  | '\n' => "\\n"
  | '\x00' => "\\0"
  | '"' => "\\\""
  | '\\' => "\\\\"
  | c => if isPrintable c then c.toString else "\\u\x7b" ++ hexadecimal c.toNat ++ "\x7d"

/-- The text in double quotes, with every character that would not be seen written as an escape. -/
def quote (text : String) : String :=
  "\"" ++ String.join (text.toList.map quoteChar) ++ "\""

end CompiledCode.Text
