import CompiledCode.Bytes.ReadError
import CompiledCode.Float.Literal
import CompiledCode.Float.Scaling
import CompiledCode.Text.Utf8

/-!
The line that holds a floating-point number: a blank, the signed mantissa in decimal, a blank and
the power of two, or the name of an infinity or of NaN.
-/

namespace CompiledCode.Binary64

/-- The mantissa is written with 54 places, one more than its binary places need. -/
def linePlaces : Nat := 54

/-- The power of two is written in five columns or more. -/
def lineExponentWidth : Nat := 5

/-- The decimal places of the fraction, as many as asked for; further places are cut off. -/
def decimalPlaces (places numerator denominator : Nat) : String :=
  Text.padStart '0' places (toString (numerator * 10 ^ places / denominator))

/-- The digits of a mantissa, whose magnitude is below one. -/
def mantissaText (mantissa : Binary64) : String :=
  (if mantissa.negative then "-" else "+") ++ "0." ++
    decimalPlaces linePlaces mantissa.significand (2 ^ (-mantissa.exponent).toNat)

/-- The line of a number, with the line feed at its end. -/
def line (x : Binary64) : String :=
  if x.isNaN then "NaN\n"
  else if x.isInfinite then if x.negative then "-Infinity\n" else "Infinity\n"
  else
    let (mantissa, exponent) := x.split
    " " ++ mantissa.mantissaText ++ " " ++
      Text.padStart ' ' lineExponentWidth (toString exponent) ++ "\n"

/-- The power of two is an integer of 32 bits. -/
def lineExponent? (text : List Char) : Option Int :=
  (Text.integer? text).filter fun exponent => -(2 ^ 31) ≤ exponent ∧ exponent < 2 ^ 31

/-- The number that the text after the first blank names. -/
def ofPair? (text : List Char) : Option Binary64 :=
  match Text.words text with
  | [mantissa, exponent] => do
    let mantissa ← ofLiteral? mantissa
    let exponent ← lineExponent? exponent
    return mantissa.scale exponent
  | _ => none

/-- The number that the text of a line names. -/
def ofLineText? (text : String) : Option Binary64 :=
  match text.toList with
  | ' ' :: pair => ofPair? pair
  | _ =>
    match Text.lowerAscii text with
    | "infinity" => some (infinity false)
    | "-infinity" => some (infinity true)
    | "nan" => some nan
    | _ => none

/-- The number on a line, which is given without its line feed. -/
def ofLine (bytes : List UInt8) : Except ReadError Binary64 :=
  match (Text.Utf8.decode? bytes).bind ofLineText? with
  | some x => .ok x
  | none => .error (.invalidFloat (Text.Utf8.decodeLossy bytes))

end CompiledCode.Binary64
