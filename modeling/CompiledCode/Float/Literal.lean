import CompiledCode.Float.Binary64
import CompiledCode.Text.Blank
import CompiledCode.Text.Number

/-!
Decimal literals of floating-point numbers: digits with an optional point and an optional
exponent, or the name of an infinity or of NaN.
-/

namespace CompiledCode

/-- A decimal number `significand * 10 ^ exponent`. -/
structure Decimal where
  significand : Nat
  exponent : Int
  deriving DecidableEq, Repr

namespace Decimal

/-- The size of an exponent. The digits after the size has reached 2^16 do not count. -/
def exponentSize (digits : List Char) : Nat :=
  digits.foldl
    (fun size c => if size < 2 ^ 16 then 10 * size + Text.digitValue c else size) 0

/-- The size of an exponent that is a run of digits. -/
def exponentSize? (text : List Char) : Option Nat :=
  if !text.isEmpty && text.all Char.isDigit then some (exponentSize text) else none

/-- A run of digits after at most one sign. -/
def signedExponent? : List Char → Option Int
  | '-' :: digits => (exponentSize? digits).map Int.negOfNat
  | '+' :: digits => (exponentSize? digits).map Int.ofNat
  | digits => (exponentSize? digits).map Int.ofNat

/-- The part after the digits is empty or a letter `e` with a signed exponent. -/
def exponent? : List Char → Option Int
  | [] => some 0
  | mark :: text => if mark = 'e' ∨ mark = 'E' then signedExponent? text else none

/-- Digits before or after a point and an optional exponent. -/
def parse? (text : List Char) : Option Decimal :=
  let whole := text.takeWhile Char.isDigit
  let rest := text.drop whole.length
  let (places, rest) := match rest with
    | '.' :: rest =>
      let places := rest.takeWhile Char.isDigit
      (places, rest.drop places.length)
    | rest => ([], rest)
  if whole.isEmpty && places.isEmpty then none
  else (exponent? rest).map fun exponent =>
    ⟨Text.digitsValue (whole ++ places), exponent - places.length⟩

/--
The nearest number of 64 bits. A power of ten lies beyond the power of eight with its exponent,
and so a number far out of the range is known without the power of ten.
-/
def toBinary64 (negative : Bool) (x : Decimal) : Binary64 :=
  let magnitude := Nat.log2 x.significand + 3 * x.exponent
  if x.significand = 0 ∨ (x.exponent < 0 ∧ magnitude < -1100) then .zero negative
  else if 0 ≤ x.exponent ∧ 1100 < magnitude then .infinity negative
  else .nearest negative (x.significand * 10 ^ x.exponent.toNat) (10 ^ (-x.exponent).toNat)

end Decimal

namespace Binary64

/-- The number that an unsigned literal names. -/
def ofUnsignedLiteral? (negative : Bool) (text : List Char) : Option Binary64 :=
  match Text.lowerAscii (String.ofList text) with
  | "inf" | "infinity" => some (infinity negative)
  | "nan" => some nan
  | _ => (Decimal.parse? text).map (·.toBinary64 negative)

/-- The number that a literal with at most one sign names. -/
def ofLiteral? : List Char → Option Binary64
  | '-' :: text => ofUnsignedLiteral? true text
  | '+' :: text => ofUnsignedLiteral? false text
  | text => ofUnsignedLiteral? false text

end Binary64

end CompiledCode
