import CompiledCode.Instruction.Opcode
import CompiledCode.Instruction.StackEffect

/-!
The instruction table: for every opcode its mnemonic, the kinds of its operands, the stack slots
it takes and gives, and what it does to the flow of control.
-/

namespace CompiledCode

/-- What an operand word means. -/
inductive OperandKind where
  | int
  | literal
  | localSlot
  | blockLocal
  | field
  | ip
  | depth
  deriving DecidableEq, Repr

def OperandKind.name : OperandKind → String
  | int => "int"
  | literal => "literal"
  | localSlot => "local"
  | blockLocal => "block_local"
  | field => "field"
  | ip => "ip"
  | depth => "depth"

/-- Where control goes after an instruction. -/
inductive Flow where
  | sequential
  | send
  | goto
  | return
  | raise
  deriving DecidableEq, Repr

def Flow.name : Flow → String
  | sequential => "sequential"
  | send => "send"
  | goto => "goto"
  | .return => "return"
  | raise => "raise"

/-- A row of the instruction table. -/
structure Descriptor where
  mnemonic : String
  operands : List OperandKind
  consumed : StackEffect
  produced : StackEffect
  flow : Flow
  checksInterrupts : Bool
  terminates : Bool
  deriving DecidableEq, Repr

namespace Opcode

/-- A row lists its entries in the order of the columns. -/
def row (mnemonic : String) (operands : List OperandKind) (consumed produced : StackEffect)
    (flow : Flow) (checksInterrupts terminates : Bool) : Descriptor :=
  ⟨mnemonic, operands, consumed, produced, flow, checksInterrupts, terminates⟩

/-- The instruction table. -/
def descriptor : Opcode → Descriptor
  | .noop => row "noop" [] (.fixed 0) (.fixed 0) .sequential false false
  | .pushNil => row "push_nil" [] (.fixed 0) (.fixed 1) .sequential false false
  | .pushTrue => row "push_true" [] (.fixed 0) (.fixed 1) .sequential false false
  | .pushFalse => row "push_false" [] (.fixed 0) (.fixed 1) .sequential false false
  | .pushInt => row "push_int" [.int] (.fixed 0) (.fixed 1) .sequential false false
  | .pushContext => row "push_context" [] (.fixed 0) (.fixed 1) .sequential false false
  | .pushLiteral => row "push_literal" [.literal] (.fixed 0) (.fixed 1) .sequential false false
  | .pushSelf => row "push_self" [] (.fixed 0) (.fixed 1) .sequential false false
  | .goto => row "goto" [.ip] (.fixed 0) (.fixed 0) .goto false false
  | .gotoIfFalse => row "goto_if_false" [.ip] (.fixed 1) (.fixed 0) .goto false false
  | .gotoIfTrue => row "goto_if_true" [.ip] (.fixed 1) (.fixed 0) .goto false false
  | .gotoIfDefined => row "goto_if_defined" [.ip] (.fixed 1) (.fixed 0) .goto false false
  | .ret => row "ret" [] (.fixed 0) (.fixed 0) .return false true
  | .halt => row "halt" [] (.fixed 0) (.fixed 0) .return false true
  | .swapStack => row "swap_stack" [] (.fixed 1) (.fixed 1) .sequential false false
  | .dupTop => row "dup_top" [] (.fixed 0) (.fixed 1) .sequential false false
  | .pop => row "pop" [] (.fixed 1) (.fixed 0) .sequential false false
  | .setLocal => row "set_local" [.localSlot] (.fixed 1) (.fixed 1) .sequential false false
  | .pushLocal => row "push_local" [.localSlot] (.fixed 0) (.fixed 1) .sequential false false
  | .pushException => row "push_exception" [] (.fixed 0) (.fixed 1) .sequential false false
  | .makeArray =>
    row "make_array" [.int] (.scaled .firstOperand 1 0) (.fixed 1) .sequential false false
  | .setIvar => row "set_ivar" [.literal] (.fixed 1) (.fixed 1) .sequential false false
  | .pushIvar => row "push_ivar" [.literal] (.fixed 0) (.fixed 1) .sequential false false
  | .pushConst => row "push_const" [.literal] (.fixed 0) (.fixed 1) .sequential false false
  | .setConst => row "set_const" [.literal] (.fixed 1) (.fixed 1) .sequential false false
  | .setConstAt => row "set_const_at" [.literal] (.fixed 2) (.fixed 0) .sequential false false
  | .findConst => row "find_const" [.literal] (.fixed 1) (.fixed 1) .sequential false false
  | .attachMethod => row "attach_method" [.literal] (.fixed 2) (.fixed 1) .sequential true false
  | .addMethod => row "add_method" [.literal] (.fixed 2) (.fixed 1) .sequential true false
  | .openClass => row "open_class" [.literal] (.fixed 1) (.fixed 1) .sequential true false
  | .openClassUnder =>
    row "open_class_under" [.literal] (.fixed 2) (.fixed 1) .sequential true false
  | .openModule => row "open_module" [.literal] (.fixed 0) (.fixed 1) .sequential true false
  | .openModuleUnder =>
    row "open_module_under" [.literal] (.fixed 1) (.fixed 1) .sequential true false
  | .shiftTuple => row "shift_tuple" [] (.fixed 1) (.fixed 2) .sequential false false
  | .castTuple => row "cast_tuple" [] (.fixed 1) (.fixed 1) .sequential false false
  | .sendMethod => row "send_method" [.literal] (.fixed 1) (.fixed 1) .send true false
  | .sendStack =>
    row "send_stack" [.literal, .int] (.scaled .secondOperand 1 1) (.fixed 1) .send true false
  | .sendStackWithBlock =>
    row "send_stack_with_block" [.literal, .int] (.scaled .secondOperand 1 2) (.fixed 1) .send true false
  | .sendStackWithSplat =>
    row "send_stack_with_splat" [.literal, .int] (.scaled .secondOperand 1 3) (.fixed 1) .send true false
  | .sendSuperStackWithBlock =>
    row "send_super_stack_with_block" [.literal, .int] (.scaled .secondOperand 1 1) (.fixed 1) .send true false
  | .sendSuperStackWithSplat =>
    row "send_super_stack_with_splat" [.literal, .int] (.scaled .secondOperand 1 2) (.fixed 1) .send false false
  | .pushBlock => row "push_block" [] (.fixed 0) (.fixed 1) .sequential false false
  | .clearException => row "clear_exception" [] (.fixed 0) (.fixed 0) .sequential false false
  | .castArray => row "cast_array" [] (.fixed 1) (.fixed 1) .sequential false false
  | .raiseExc => row "raise_exc" [] (.fixed 0) (.fixed 0) .raise false true
  | .pushCpathTop => row "push_cpath_top" [] (.fixed 0) (.fixed 1) .sequential false false
  | .passedArg => row "passed_arg" [.int] (.fixed 0) (.fixed 1) .sequential false false
  | .stringAppend => row "string_append" [] (.fixed 2) (.fixed 1) .sequential false false
  | .stringDup => row "string_dup" [] (.fixed 1) (.fixed 1) .sequential false false
  | .pushMyField => row "push_my_field" [.field] (.fixed 0) (.fixed 1) .sequential false false
  | .storeMyField => row "store_my_field" [.field] (.fixed 1) (.fixed 1) .sequential false false
  | .openMetaclass => row "open_metaclass" [] (.fixed 1) (.fixed 1) .sequential false false
  | .pushLocalDepth =>
    row "push_local_depth" [.depth, .blockLocal] (.fixed 0) (.fixed 1) .sequential false false
  | .setLocalDepth =>
    row "set_local_depth" [.depth, .blockLocal] (.fixed 1) (.fixed 1) .sequential false false
  | .locateMethod => row "locate_method" [] (.fixed 3) (.fixed 1) .sequential false false
  | .kindOf => row "kind_of" [] (.fixed 2) (.fixed 1) .sequential false false
  | .instanceOf => row "instance_of" [] (.fixed 2) (.fixed 1) .sequential false false
  | .setCallFlags => row "set_call_flags" [.int] (.fixed 0) (.fixed 0) .sequential false false
  | .yieldDebugger => row "yield_debugger" [] (.fixed 0) (.fixed 0) .sequential true false
  | .isFixnum => row "is_fixnum" [] (.fixed 1) (.fixed 1) .sequential false false
  | .isSymbol => row "is_symbol" [] (.fixed 1) (.fixed 1) .sequential false false
  | .isNil => row "is_nil" [] (.fixed 1) (.fixed 1) .sequential false false
  | .classOf => row "class" [] (.fixed 1) (.fixed 1) .sequential false false
  | .equal => row "equal" [] (.fixed 2) (.fixed 1) .sequential false false
  | .setLiteral => row "set_literal" [.literal] (.fixed 0) (.fixed 0) .sequential false false
  | .passedBlockarg => row "passed_blockarg" [.int] (.fixed 0) (.fixed 1) .sequential false false
  | .createBlock => row "create_block" [.literal] (.fixed 0) (.fixed 1) .sequential false false
  | .castForSingleBlockArg =>
    row "cast_for_single_block_arg" [] (.fixed 1) (.fixed 1) .sequential false false
  | .castForMultiBlockArg =>
    row "cast_for_multi_block_arg" [] (.fixed 1) (.fixed 1) .sequential false false
  | .checkSerial =>
    row "check_serial" [.literal, .int] (.fixed 1) (.fixed 1) .sequential false false
  | .metaPushNeg1 => row "meta_push_neg_1" [] (.fixed 0) (.fixed 1) .sequential false false
  | .metaPush0 => row "meta_push_0" [] (.fixed 0) (.fixed 1) .sequential false false
  | .metaPush1 => row "meta_push_1" [] (.fixed 0) (.fixed 1) .sequential false false
  | .metaPush2 => row "meta_push_2" [] (.fixed 0) (.fixed 1) .sequential false false
  | .metaSendOpPlus => row "meta_send_op_plus" [] (.fixed 2) (.fixed 1) .send true false
  | .metaSendOpMinus => row "meta_send_op_minus" [] (.fixed 2) (.fixed 1) .send true false
  | .metaSendOpEqual => row "meta_send_op_equal" [] (.fixed 2) (.fixed 1) .send true false
  | .metaSendOpLt => row "meta_send_op_lt" [] (.fixed 2) (.fixed 1) .send true false
  | .metaSendOpGt => row "meta_send_op_gt" [] (.fixed 2) (.fixed 1) .send true false
  | .metaSendOpTequal => row "meta_send_op_tequal" [] (.fixed 2) (.fixed 1) .send true false
  | .metaSendOpNequal => row "meta_send_op_nequal" [] (.fixed 2) (.fixed 1) .send true false
  | .metaSendCall =>
    row "meta_send_call" [.int] (.scaled .firstOperand 1 1) (.fixed 1) .send false false
  | .pushScope => row "push_scope" [] (.fixed 0) (.fixed 1) .sequential false false
  | .addScope => row "add_scope" [] (.fixed 1) (.fixed 0) .sequential false false
  | .rotate => row "rotate" [.int] (.fixed 0) (.fixed 0) .sequential false false
  | .shiftArray => row "shift_array" [] (.fixed 1) (.fixed 2) .sequential false false

def mnemonic (opcode : Opcode) : String := opcode.descriptor.mnemonic

def operandKinds (opcode : Opcode) : List OperandKind := opcode.descriptor.operands

def operandCount (opcode : Opcode) : Nat := opcode.operandKinds.length

/-- Words that an instruction takes in a code block: the id and the operands. -/
def width (opcode : Opcode) : Nat := 1 + opcode.operandCount

/-- Control never falls through to the words after such an instruction. -/
def endsFlow (opcode : Opcode) : Bool :=
  opcode.descriptor.terminates || opcode.descriptor.flow = .return

/-- The opcode with an id. -/
def ofId (id : UInt64) : Except CodeError Opcode :=
  match ofId? id with
  | some opcode => .ok opcode
  | none => .error (.invalidOpcode id)

/-- The opcode with a mnemonic. -/
def ofMnemonic (name : String) : Except CodeError Opcode :=
  match all.find? fun opcode => opcode.mnemonic == name with
  | some opcode => .ok opcode
  | none => .error (.invalidMnemonic name)

end Opcode

end CompiledCode
