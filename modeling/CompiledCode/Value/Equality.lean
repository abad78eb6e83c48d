import CompiledCode.Value.Basic

/-!
Values are the same when they are the same node by node. Integers are compared by value, floats
by bits except that any NaN is the same as any other, and code blocks by their words.
-/

namespace CompiledCode

namespace Binary64

/-- All NaN are the same number, and otherwise the bits decide. -/
def same (first second : Binary64) : Bool :=
  (first.isNaN && second.isNaN) || first.bits == second.bits

end Binary64

namespace Value

mutual

/-- Two values are the same. -/
def same : Value → Value → Bool
  | nil, nil | true, true | false, false => .true
  | integer first, integer second => first == second
  | integer first, bigInteger second => first.toInt == second
  | bigInteger first, integer second => first == second.toInt
  | bigInteger first, bigInteger second => first == second
  | float first, float second => first.same second
  | string first, string second => first == second
  | symbol first, symbol second => first == second
  | sendSite first, sendSite second => first == second
  | array first, array second => sameAll first second
  | tuple first, tuple second => sameAll first second
  | code first, code second => first.sameCode second
  | method ⟨a₁, a₂, a₃, a₄, a₅, a₆, a₇, a₈, a₉, a₁₀, a₁₁, a₁₂, a₁₃, a₁₄⟩,
      method ⟨b₁, b₂, b₃, b₄, b₅, b₆, b₇, b₈, b₉, b₁₀, b₁₁, b₁₂, b₁₃, b₁₄⟩ =>
    same a₁ b₁ && same a₂ b₂ && same a₃ b₃ && same a₄ b₄ && same a₅ b₅ && same a₆ b₆ &&
      same a₇ b₇ && same a₈ b₈ && same a₉ b₉ && same a₁₀ b₁₀ && same a₁₁ b₁₁ &&
      same a₁₂ b₁₂ && same a₁₃ b₁₃ && same a₁₄ b₁₄
  | _, _ => .false

/-- Two lists have the same values in the same order. -/
def sameAll : List Value → List Value → Bool
  | [], [] => .true
  | first :: rest, second :: others => same first second && sameAll rest others
  | _, _ => .false

end

end Value

end CompiledCode
