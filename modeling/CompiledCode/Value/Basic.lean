import CompiledCode.Code.Block
import CompiledCode.Float.Binary64
import CompiledCode.Text.Utf8

namespace CompiledCode

/-- The fields of a compiled method, in the order in which they are written. -/
structure MethodRecord (α : Type) where
  ivars : α
  primitive : α
  name : α
  code : α
  stackSize : α
  localCount : α
  requiredArguments : α
  totalArguments : α
  splat : α
  literals : α
  handlers : α
  lines : α
  file : α
  localNames : α
  deriving DecidableEq, Repr

namespace MethodRecord

/-- The names that the fields have in the format. -/
def fieldNames : List String :=
  ["ivars", "primitive", "name", "iseq", "stack_size", "local_count", "required_args",
    "total_args", "splat", "literals", "exceptions", "lines", "file", "local_names"]

/-- The fields in order. -/
def fields {α : Type} (record : MethodRecord α) : List α :=
  [record.ivars, record.primitive, record.name, record.code, record.stackSize, record.localCount,
    record.requiredArguments, record.totalArguments, record.splat, record.literals,
    record.handlers, record.lines, record.file, record.localNames]

/-- A record is made of exactly fourteen fields. -/
def ofFields? {α : Type} : List α → Option (MethodRecord α)
  | [ivars, primitive, name, code, stackSize, localCount, requiredArguments, totalArguments,
      splat, literals, handlers, lines, file, localNames] =>
    some ⟨ivars, primitive, name, code, stackSize, localCount, requiredArguments, totalArguments,
      splat, literals, handlers, lines, file, localNames⟩
  | _ => none

theorem ofFields?_fields {α : Type} (record : MethodRecord α) :
    ofFields? record.fields = some record := rfl

theorem length_fields {α : Type} (record : MethodRecord α) : record.fields.length = 14 := rfl

end MethodRecord

/--
A value of a compiled file. An integer of 64 bits has a constructor of its own, and the other
constructor for integers may hold any integer.
-/
inductive Value where
  | nil
  | true
  | false
  | integer (value : Int64)
  | bigInteger (value : Int)
  | float (value : Binary64)
  | string (bytes : List UInt8)
  | symbol (name : List UInt8)
  | sendSite (name : List UInt8)
  | array (items : List Value)
  | tuple (items : List Value)
  | code (block : CodeBlock)
  | method (record : MethodRecord Value)
  deriving Inhabited

/-- A compiled method is a record of values. -/
abbrev Method := MethodRecord Value

namespace Value

/-- An integer, as an integer of 64 bits when it is one. -/
def ofInt (value : Int) : Value :=
  if -(2 ^ 63) ≤ value ∧ value < 2 ^ 63 then integer (.ofInt value) else bigInteger value

/-- The name of the kind of a value in messages. -/
def kindName : Value → String
  | nil => "nil"
  | true => "true"
  | false => "false"
  | integer _ | bigInteger _ => "integer"
  | float _ => "float"
  | string _ => "string"
  | symbol _ => "symbol"
  | sendSite _ => "send site"
  | array _ => "array"
  | tuple _ => "tuple"
  | code _ => "instruction sequence"
  | method _ => "compiled method"

def isNil : Value → Bool
  | nil => .true
  | _ => .false

def integer? : Value → Option Int64
  | integer value => some value
  | _ => none

def bool? : Value → Option Bool
  | true => some .true
  | false => some .false
  | _ => none

def string? : Value → Option (List UInt8)
  | string bytes => some bytes
  | _ => none

def symbol? : Value → Option (List UInt8)
  | symbol name => some name
  | _ => none

def array? : Value → Option (List Value)
  | array items => some items
  | _ => none

def tuple? : Value → Option (List Value)
  | tuple items => some items
  | _ => none

def code? : Value → Option CodeBlock
  | code block => some block
  | _ => none

def method? : Value → Option Method
  | method record => some record
  | _ => none

/-- The values that a container holds, in order. -/
def children : Value → List Value
  | array items | tuple items => items
  | method record => record.fields
  | _ => []

end Value

/-- A symbol is shown with a colon in front of its name. -/
def symbolText (name : List UInt8) : String := ":" ++ Text.Utf8.decodeLossy name

end CompiledCode
