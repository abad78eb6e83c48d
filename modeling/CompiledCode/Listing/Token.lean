import CompiledCode.Text.Blank

/-!
The tokens of a line. Blanks, tabs and commas separate tokens, a number sign starts a comment, and
neither does so between double quotes, where a backslash takes the next character literally.
-/

namespace CompiledCode.Listing

/-- A token with the byte column, counted from one, of its first character. -/
structure Token where
  column : Nat
  text : List Char
  deriving DecidableEq, Repr

/-- What the characters so far have opened; the text of a token is kept in reverse. -/
inductive LineState where
  | between
  | word (column : Nat) (reversed : List Char)
  | quoted (column : Nat) (reversed : List Char) (escaped : Bool)

def isSeparator (c : Char) : Bool := c = ' ' || c = '\t' || c = ','

/-- A character that is part of a token continues the token or opens one at the column. -/
def LineState.push (column : Nat) (c : Char) : LineState → LineState
  | between => if c = '"' then quoted column [c] false else word column [c]
  | word start reversed =>
    if c = '"' then quoted start (c :: reversed) false else word start (c :: reversed)
  | quoted start reversed true => quoted start (c :: reversed) false
  | quoted start reversed false =>
    if c = '"' then word start (c :: reversed) else quoted start (c :: reversed) (c = '\\')

/-- The token that ends with the line or at a comment loses the Unicode blanks at its end. -/
def lastToken (column : Nat) (reversed : List Char) : List Token :=
  let text := Text.trimEnd reversed.reverse
  if text.isEmpty then [] else [⟨column, text⟩]

/-- The tokens from a column on, or the column of the token whose quotes are not closed. -/
def tokensFrom (column : Nat) : LineState → List Char → Except Nat (List Token)
  | .between, [] => .ok []
  | .word start reversed, [] => .ok (lastToken start reversed)
  | .quoted start _ _, [] => .error start
  | .between, c :: rest =>
    if c = '#' then .ok []
    else if isSeparator c then tokensFrom (column + c.utf8Size) .between rest
    else tokensFrom (column + c.utf8Size) (LineState.between.push column c) rest
  | .word start reversed, c :: rest =>
    if c = '#' then .ok (lastToken start reversed)
    else if isSeparator c then
      (⟨start, reversed.reverse⟩ :: ·) <$> tokensFrom (column + c.utf8Size) .between rest
    else tokensFrom (column + c.utf8Size) ((LineState.word start reversed).push column c) rest
  | .quoted start reversed escaped, c :: rest =>
    tokensFrom (column + c.utf8Size) ((LineState.quoted start reversed escaped).push column c) rest

/-- The tokens of a line. -/
def tokens (line : List Char) : Except Nat (List Token) := tokensFrom 1 .between line

end CompiledCode.Listing
