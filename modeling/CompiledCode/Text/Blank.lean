namespace CompiledCode.Text

/-- A character is blank when it has the Unicode property White_Space. -/
def isBlank (c : Char) : Bool :=
  (9 ≤ c.toNat && c.toNat ≤ 13) || c.toNat == 0x20 || c.toNat == 0x85 || c.toNat == 0xA0 ||
    c.toNat == 0x1680 || (0x2000 ≤ c.toNat && c.toNat ≤ 0x200A) || c.toNat == 0x2028 ||
    c.toNat == 0x2029 || c.toNat == 0x202F || c.toNat == 0x205F || c.toNat == 0x3000

/-- Blanks at the start are dropped. -/
def trimStart (text : List Char) : List Char := text.dropWhile isBlank

/-- Every character at the end that satisfies the test is dropped. -/
def dropEndWhile (test : Char → Bool) (text : List Char) : List Char :=
  (text.reverse.dropWhile test).reverse

/-- Blanks at the end are dropped. -/
def trimEnd (text : List Char) : List Char := dropEndWhile isBlank text

/-- Blanks at both ends are dropped. -/
def trim (text : List Char) : List Char := trimEnd (trimStart text)

/-- The pieces between the separators, one more than there are separators. -/
def pieces (separator : Char → Bool) : List Char → List (List Char)
  | [] => [[]]
  | c :: rest =>
    if separator c then [] :: pieces separator rest
    else match pieces separator rest with
      | [] => [[c]]
      | piece :: others => (c :: piece) :: others

/-- The longest runs without a blank, in order. -/
def words (text : List Char) : List (List Char) :=
  (pieces isBlank text).filter (!·.isEmpty)

/-- A carriage return is dropped when it is the last character. -/
def dropReturn (line : List Char) : List Char :=
  if line.getLast? = some '\r' then line.dropLast else line

/--
A line ends with a line feed or with a carriage return and a line feed.
The text after the last line feed is a line when it is not empty, and it keeps its returns.
-/
def lines (text : List Char) : List (List Char) :=
  let all := pieces (· == '\n') text
  let last := all.getLast?.getD []
  all.dropLast.map dropReturn ++ if last.isEmpty then [] else [last]

/-- ASCII letters become lower-case and every other character stays. -/
def lowerAscii (text : String) : String := String.ofList (text.toList.map Char.toLower)

end CompiledCode.Text
