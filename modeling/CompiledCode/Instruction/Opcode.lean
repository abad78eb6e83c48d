namespace CompiledCode

/-- The operations of the machine, in the order of the ids that code blocks hold. -/
inductive Opcode where
  | noop
  | pushNil
  | pushTrue
  | pushFalse
  | pushInt
  | pushContext
  | pushLiteral
  | pushSelf
  | goto
  | gotoIfFalse
  | gotoIfTrue
  | gotoIfDefined
  | ret
  | halt
  | swapStack
  | dupTop
  | pop
  | setLocal
  | pushLocal
  | pushException
  | makeArray
  | setIvar
  | pushIvar
  | pushConst
  | setConst
  | setConstAt
  | findConst
  | attachMethod
  | addMethod
  | openClass
  | openClassUnder
  | openModule
  | openModuleUnder
  | shiftTuple
  | castTuple
  | sendMethod
  | sendStack
  | sendStackWithBlock
  | sendStackWithSplat
  | sendSuperStackWithBlock
  | sendSuperStackWithSplat
  | pushBlock
  | clearException
  | castArray
  | raiseExc
  | pushCpathTop
  | passedArg
  | stringAppend
  | stringDup
  | pushMyField
  | storeMyField
  | openMetaclass
  | pushLocalDepth
  | setLocalDepth
  | locateMethod
  | kindOf
  | instanceOf
  | setCallFlags
  | yieldDebugger
  | isFixnum
  | isSymbol
  | isNil
  | classOf
  | equal
  | setLiteral
  | passedBlockarg
  | createBlock
  | castForSingleBlockArg
  | castForMultiBlockArg
  | checkSerial
  | metaPushNeg1
  | metaPush0
  | metaPush1
  | metaPush2
  | metaSendOpPlus
  | metaSendOpMinus
  | metaSendOpEqual
  | metaSendOpLt
  | metaSendOpGt
  | metaSendOpTequal
  | metaSendOpNequal
  | metaSendCall
  | pushScope
  | addScope
  | rotate
  | shiftArray
  deriving DecidableEq, Repr, Inhabited

namespace Opcode

/-- Every opcode, at the position that its id gives. -/
def all : List Opcode :=
  [.noop, .pushNil, .pushTrue, .pushFalse, .pushInt, .pushContext, .pushLiteral, .pushSelf,
    .goto, .gotoIfFalse, .gotoIfTrue, .gotoIfDefined, .ret, .halt, .swapStack, .dupTop, .pop,
    .setLocal, .pushLocal, .pushException, .makeArray, .setIvar, .pushIvar, .pushConst,
    .setConst, .setConstAt, .findConst, .attachMethod, .addMethod, .openClass, .openClassUnder,
    .openModule, .openModuleUnder, .shiftTuple, .castTuple, .sendMethod, .sendStack,
    .sendStackWithBlock, .sendStackWithSplat, .sendSuperStackWithBlock, .sendSuperStackWithSplat,
    .pushBlock, .clearException, .castArray, .raiseExc, .pushCpathTop, .passedArg, .stringAppend,
    .stringDup, .pushMyField, .storeMyField, .openMetaclass, .pushLocalDepth, .setLocalDepth,
    .locateMethod, .kindOf, .instanceOf, .setCallFlags, .yieldDebugger, .isFixnum, .isSymbol,
    .isNil, .classOf, .equal, .setLiteral, .passedBlockarg, .createBlock, .castForSingleBlockArg,
    .castForMultiBlockArg, .checkSerial, .metaPushNeg1, .metaPush0, .metaPush1, .metaPush2,
    .metaSendOpPlus, .metaSendOpMinus, .metaSendOpEqual, .metaSendOpLt, .metaSendOpGt,
    .metaSendOpTequal, .metaSendOpNequal, .metaSendCall, .pushScope, .addScope, .rotate,
    .shiftArray]

/-- The word that stands for the opcode. -/
def id (opcode : Opcode) : UInt64 := .ofNat opcode.ctorIdx

/-- The opcode that a word stands for. -/
def ofId? (id : UInt64) : Option Opcode := all[id.toNat]?

theorem ofId?_id (opcode : Opcode) : ofId? opcode.id = some opcode := by
  cases opcode <;> rfl

end Opcode

end CompiledCode
