import CompiledCode.Code.Decode
import CompiledCode.Text.Number

namespace CompiledCode

namespace Instruction

/-- The operands of a kind, in order. -/
def operandsOfKind (instruction : Instruction) (kind : OperandKind) : List UInt64 :=
  ((instruction.opcode.operandKinds.zip instruction.operands).filter (·.1 = kind)).map (·.2)

end Instruction

namespace Decoded

/-- The word offsets that instructions jump to. -/
def jumps (decoded : Decoded) : List UInt64 :=
  decoded.instructions.flatMap (·.operandsOfKind .ip)

/-- A number is inserted into an increasing list unless it is there. -/
def insertIncreasing (value : UInt64) : List UInt64 → List UInt64
  | [] => [value]
  | first :: rest =>
    if value < first then value :: first :: rest
    else if value = first then first :: rest
    else first :: insertIncreasing value rest

/-- The word offsets that instructions jump to, each once and in increasing order. -/
def branchTargets (decoded : Decoded) : List UInt64 :=
  decoded.jumps.foldl (fun targets value => insertIncreasing value targets) []

/-- Offsets have four digits, or as many as the last one. -/
def offsetWidth (decoded : Decoded) : Nat :=
  match decoded.entries.getLast? with
  | some (offset, _) => max (toString offset).length 4
  | none => 4

/-- A line: a mark on jump targets, the offset, the instruction, and notes on its literals. -/
def renderLine (note : UInt64 → Option String) (jumps : List UInt64) (width : Nat)
    (entry : Nat × Instruction) : String :=
  let (offset, instruction) := entry
  let mark := if jumps.any (·.toNat == offset) then ">" else " "
  let notes := (instruction.operandsOfKind .literal).filterMap note
  let comment := if notes.isEmpty then "" else "  # " ++ ", ".intercalate notes
  mark ++ Text.padStart '0' width (toString offset) ++ ": " ++ instruction.text ++ comment ++ "\n"

/-- One line for each instruction, where `note` describes the literal with an index. -/
def render (decoded : Decoded) (note : UInt64 → Option String) : String :=
  String.join (decoded.entries.map (renderLine note decoded.branchTargets decoded.offsetWidth))

end Decoded

end CompiledCode
