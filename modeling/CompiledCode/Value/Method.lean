import CompiledCode.Code.Disassembly
import CompiledCode.Value.Basic

/-!
Compiled methods. The fields may hold any values; what a field says is known only when its value
has the expected kind.
-/

namespace CompiledCode

/-- An entry of the line table: the words from `first` to `last` come from the source line. -/
structure LineEntry where
  first : Int64
  last : Int64
  line : Int64
  deriving DecidableEq, Repr

def LineEntry.value (entry : LineEntry) : Value :=
  .tuple [.integer entry.first, .integer entry.last, .integer entry.line]

/-- An entry is a tuple of three integers. -/
def LineEntry.ofValue? : Value → Option LineEntry
  | .tuple [.integer first, .integer last, .integer line] => some ⟨first, last, line⟩
  | _ => none

namespace MethodRecord

/--
A method without arguments and locals. Its stack size is the depth of the code, or the greatest
integer of 64 bits if the depth is greater.
-/
def ofCode (name : List UInt8) (block : CodeBlock) : Method where
  ivars := .nil
  primitive := .nil
  name := .symbol name
  code := .code block
  stackSize := .integer (.ofInt (min block.stackDepth.toNat (2 ^ 63 - 1)))
  localCount := .integer 0
  requiredArguments := .integer 0
  totalArguments := .integer 0
  splat := .nil
  literals := .tuple []
  handlers := .tuple []
  lines := .tuple []
  file := .nil
  localNames := .nil

def withLiterals (method : Method) (literals : List Value) : Method :=
  { method with literals := .tuple literals }

def withFile (method : Method) (file : List UInt8) : Method :=
  { method with file := .symbol file }

/-- The argument counts, and the slot of a rest argument if there is one. -/
def withArguments (method : Method) (required total : Int64) (splat : Option Int64) : Method :=
  { method with
    requiredArguments := .integer required
    totalArguments := .integer total
    splat := (splat.map Value.integer).getD .nil }

/-- The names of the locals and their number. -/
def withLocals (method : Method) (names : List (List UInt8)) : Method :=
  { method with
    localCount := .integer (.ofInt names.length)
    localNames := .tuple (names.map .symbol) }

def withLines (method : Method) (entries : List LineEntry) : Method :=
  { method with lines := .tuple (entries.map LineEntry.value) }

/-- The literals, which are none unless the field is a tuple. -/
def literalValues (method : Method) : List Value := method.literals.tuple?.getD []

def literal? (method : Method) (index : UInt64) : Option Value :=
  method.literalValues[index.toNat]?

/-- The entries of the line table that are well-formed. -/
def lineEntries (method : Method) : List LineEntry :=
  (method.lines.tuple?.getD []).filterMap LineEntry.ofValue?

/-- The source line of a word offset, from the first entry that covers it. -/
def line? (method : Method) (offset : UInt64) : Option Int64 :=
  (method.lineEntries.find? fun entry =>
    entry.first.toInt ≤ (offset.toNat : Int) && (offset.toNat : Int) ≤ entry.last.toInt).map
      (·.line)

/-- The source line of the first entry. -/
def startLine? (method : Method) : Option Int64 := method.lineEntries.head?.map (·.line)

end MethodRecord

end CompiledCode
