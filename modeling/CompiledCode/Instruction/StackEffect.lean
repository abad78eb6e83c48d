import CompiledCode.Instruction.Error
import CompiledCode.Power

namespace CompiledCode

/-- The number that a scaled stack effect multiplies. -/
inductive StackSource where
  | firstOperand
  | secondOperand
  | argumentRegister
  deriving DecidableEq, Repr

/-- How many stack slots an instruction takes or gives. -/
inductive StackEffect where
  | fixed (count : Nat)
  | scaled (source : StackSource) (multiplier constant : Nat)
  deriving DecidableEq, Repr

namespace StackEffect

def source? : StackEffect → Option StackSource
  | fixed _ => none
  | scaled source _ _ => some source

/-- An effect is static when the operands of the instruction decide it. -/
def isStatic (effect : StackEffect) : Bool := effect.source? ≠ some .argumentRegister

/-- The operand at a position; an instruction that lacks it has too few operands. -/
def operand (mnemonic : String) (operands : List UInt64) (index : Nat) : Except CodeError Nat :=
  match operands[index]? with
  | some value => .ok value.toNat
  | none => .error (.operandCount mnemonic (index + 1) operands.length)

/-- The number that a source stands for, where the register may be unknown. -/
def sourceValue (mnemonic : String) (operands : List UInt64) (register : Option UInt64) :
    StackSource → Except CodeError Nat
  | .firstOperand => operand mnemonic operands 0
  | .secondOperand => operand mnemonic operands 1
  | .argumentRegister =>
    match register with
    | some value => .ok value.toNat
    | none => .error (.registerEffect mnemonic)

/-- The number of slots. A scaled count has to stay below 2^64. -/
def resolve (effect : StackEffect) (mnemonic : String) (operands : List UInt64)
    (register : Option UInt64) : Except CodeError Nat :=
  match effect with
  | fixed count => .ok count
  | scaled source multiplier constant => do
    let value ← sourceValue mnemonic operands register source
    let count := multiplier * value + constant
    if count < 2 ^ 64 then .ok count else .error (.stackOverflow mnemonic)

end StackEffect

end CompiledCode
