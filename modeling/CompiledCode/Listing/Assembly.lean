import CompiledCode.Listing.Error
import CompiledCode.Listing.Literal
import CompiledCode.Listing.Token
import CompiledCode.Text.Number

/-!
A listing is assembled in two passes. The first finds the labels and the width of every
instruction, and the second reads the operands, so that a label may be used before its definition.
-/

namespace CompiledCode.Listing

/-- An instruction of a listing before its operands are read. -/
structure Statement where
  line : Nat
  head : Token
  opcode : Opcode
  arguments : List Token
  deriving DecidableEq, Repr

/-- Labels with the word offsets of the instructions after them, in order of definition. -/
abbrev Labels := List (String × Nat)

/--
What the first pass has found so far, the statements in reverse, and the offset of the next
instruction.
-/
structure Outline where
  offset : Nat
  labels : Labels
  reversed : List Statement

def Outline.statements (outline : Outline) : List Statement := outline.reversed.reverse

/-- A label definition ends with a colon, does not start with one, and has a name. -/
def Token.label? (token : Token) : Option String :=
  if token.text.getLast? = some ':' ∧ token.text.head? ≠ some ':' then
    some (String.ofList token.text.dropLast)
  else none

/-- A new label stands for the offset of the next instruction. -/
def Outline.define (outline : Outline) (line : Nat) (token : Token) (label : String) :
    Except AssemblyError Outline :=
  if (outline.labels.lookup label).isSome then
    .error (.refused line token.column (.duplicateLabel label))
  else .ok { outline with labels := outline.labels ++ [(label, outline.offset)] }

/-- The first token names the instruction and the others are its arguments. -/
def Outline.add (outline : Outline) (line : Nat) : List Token → Except AssemblyError Outline
  | [] => .ok outline
  | head :: arguments =>
    match Opcode.ofMnemonic (String.ofList head.text) with
    | .error cause => .error (.refused line head.column (.instruction cause))
    | .ok opcode => .ok { outline with
        offset := outline.offset + opcode.width
        reversed := ⟨line, head, opcode, arguments⟩ :: outline.reversed }

/-- A line holds an optional label definition and an optional instruction. -/
def Outline.addLine (outline : Outline) (line : Nat) (text : List Char) :
    Except AssemblyError Outline :=
  match tokens text with
  | .error column => .error (.unterminatedString line column)
  | .ok [] => .ok outline
  | .ok (first :: rest) =>
    match first.label? with
    | none => outline.add line (first :: rest)
    | some label => do
      let outline ← outline.define line first label
      outline.add line rest

/-- The first pass, over lines that are numbered from one. -/
def outlineOf (source : String) : Except AssemblyError Outline :=
  (Text.lines source.toList).zipIdx.foldlM
    (fun outline (text, index) => outline.addLine (index + 1) text) ⟨0, [], []⟩

/-- An operand that is a number. -/
def numberOperand (kind : OperandKind) (text : List Char) : Except TokenFault UInt64 :=
  match Text.word? text with
  | some value => .ok value
  | none => .error (.invalidOperand kind (String.ofList text))

/-- A jump goes to a word offset or else to a label. -/
def jumpOperand (labels : Labels) (text : List Char) : Except TokenFault UInt64 :=
  match Text.word? text with
  | some value => .ok value
  | none =>
    match labels.lookup (String.ofList text) with
    | some offset => .ok (.ofNat offset)
    | none => .error (.undefinedLabel (String.ofList text))

/-- A literal is a string, a symbol, or an index into the table. -/
def literalOperand (table : LiteralTable) (text : List Char) :
    Except TokenFault (UInt64 × LiteralTable) :=
  match text with
  | '"' :: _ =>
    match string? text with
    | some bytes =>
      let (index, table) := table.intern (.string bytes)
      .ok (.ofNat index, table)
    | none => .error (.invalidOperand .literal (String.ofList text))
  | ':' :: first :: name =>
    let (index, table) :=
      table.intern (.symbol ((first :: name).flatMap String.utf8EncodeChar))
    .ok (.ofNat index, table)
  | _ => do
    let index ← numberOperand .literal text
    return (index, table)

/-- An operand of a kind, and the literals after it. -/
def operand (labels : Labels) (table : LiteralTable) (kind : OperandKind) (text : List Char) :
    Except TokenFault (UInt64 × LiteralTable) :=
  match kind with
  | .ip => (·, table) <$> jumpOperand labels text
  | .literal => literalOperand table text
  | kind => (·, table) <$> numberOperand kind text

/-- The operands of a statement, and the literals after them. -/
def operands (labels : Labels) (line : Nat) (table : LiteralTable) :
    List (OperandKind × Token) → Except AssemblyError (List UInt64 × LiteralTable)
  | [] => .ok ([], table)
  | (kind, token) :: rest =>
    match operand labels table kind token.text with
    | .error fault => .error (.refused line token.column fault)
    | .ok (value, table) => do
      let (values, table) ← operands labels line table rest
      return (value :: values, table)

/-- A statement has as many arguments as the instruction has operands. -/
def Statement.instruction (labels : Labels) (table : LiteralTable) (statement : Statement) :
    Except AssemblyError (Instruction × LiteralTable) :=
  let kinds := statement.opcode.operandKinds
  if statement.arguments.length = kinds.length then do
    let (values, table) ← operands labels statement.line table (kinds.zip statement.arguments)
    return (⟨statement.opcode, values⟩, table)
  else .error (.refused statement.line statement.head.column (.instruction
    (.operandCount statement.opcode.mnemonic kinds.length statement.arguments.length)))

/-- The second pass. -/
def instructions (labels : Labels) (table : LiteralTable) :
    List Statement → Except AssemblyError (List Instruction × LiteralTable)
  | [] => .ok ([], table)
  | statement :: rest => do
    let (instruction, table) ← statement.instruction labels table
    let (others, table) ← instructions labels table rest
    return (instruction :: others, table)

/-- An assembled listing. -/
structure Assembly where
  instructions : List Instruction
  code : CodeBlock
  literals : LiteralTable
  labels : Labels
  deriving DecidableEq, Repr

/-- The code of a listing. -/
def assemble (source : String) : Except AssemblyError Assembly := do
  let outline ← outlineOf source
  let (instructions, literals) ← instructions outline.labels [] outline.statements
  match CodeBlock.encode instructions with
  | .error failure => .error (.unencodable failure)
  | .ok code => return ⟨instructions, code, literals, outline.labels⟩

end CompiledCode.Listing
