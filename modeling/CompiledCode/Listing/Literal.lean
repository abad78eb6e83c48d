import CompiledCode.Text.Utf8

namespace CompiledCode.Listing

/-- A literal that a listing spells: a quoted string or a symbol. -/
inductive Literal where
  | string (bytes : List UInt8)
  | symbol (name : List UInt8)
  deriving DecidableEq, Repr

/-- The literals of a listing, each once, in order of first use. -/
abbrev LiteralTable := List Literal

/-- The index of a literal, which joins the table at its end when it is new. -/
def LiteralTable.intern (table : LiteralTable) (literal : Literal) : Nat × LiteralTable :=
  if literal ∈ table then (table.idxOf literal, table) else (table.length, table ++ [literal])

/-- The character that a backslash and another character stand for. -/
def escaped? : Char → Option Char
  | 'n' => some '\n'
  | 't' => some '\t'
  | '0' => some '\x00'
  | '\\' => some '\\'
  | '"' => some '"'
  | _ => none

/-- The text between quotes, with its escapes replaced. -/
def unescape? : List Char → Option (List Char)
  | [] => some []
  | '\\' :: [] => none
  | '\\' :: c :: rest => do
    let c ← escaped? c
    let rest ← unescape? rest
    return c :: rest
  | c :: rest => (c :: ·) <$> unescape? rest

/-- The string that a token between double quotes spells. -/
def string? : List Char → Option (List UInt8)
  | '"' :: body =>
    if body.getLast? = some '"' then
      (unescape? body.dropLast).map fun text => text.flatMap String.utf8EncodeChar
    else none
  | _ => none

end CompiledCode.Listing
