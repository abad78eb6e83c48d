import CompiledCode.Power

namespace CompiledCode.Text

/-- The value of a decimal digit. -/
def digitValue (c : Char) : Nat := c.toNat - '0'.toNat

/-- The value of a run of decimal digits. -/
def digitsValue (digits : List Char) : Nat :=
  digits.foldl (fun value c => 10 * value + digitValue c) 0

/-- A run of decimal digits is not empty and holds only ASCII digits. -/
def digits? (text : List Char) : Option Nat :=
  if !text.isEmpty && text.all Char.isDigit then some (digitsValue text) else none

/-- A natural number is a run of digits after at most one plus sign. -/
def natural? : List Char → Option Nat
  | '+' :: digits => digits? digits
  | digits => digits? digits

/-- An integer is a run of digits after at most one sign. -/
def integer? : List Char → Option Int
  | '-' :: digits => (digits? digits).map fun value => -(value : Int)
  | text => (natural? text).map Int.ofNat

/-- A word is a natural number below 2^64. -/
def word? (text : List Char) : Option UInt64 := do
  let value ← natural? text
  if value < 2 ^ 64 then some (.ofNat value) else none

/-- The text gets copies of the filler in front until it has the width. -/
def padStart (filler : Char) (width : Nat) (text : String) : String :=
  String.ofList (List.replicate (width - text.length) filler) ++ text

/-- Lower-case hexadecimal digits, most significant first. -/
def hexadecimal (value : Nat) : String := String.ofList (Nat.toDigits 16 value)

end CompiledCode.Text
