namespace CompiledCode

/-- What a marshalled value starts with. -/
inductive Tag where
  | true
  | false
  | nil
  | integer
  | negativeInteger
  | float
  | string
  | symbol
  | sendSite
  | array
  | tuple
  | code
  | method
  deriving DecidableEq, Repr

namespace Tag

/-- The letter of a tag. -/
def byte : Tag → UInt8
  | true => 't'.toUInt8
  | false => 'f'.toUInt8
  | nil => 'n'.toUInt8
  | integer => 'I'.toUInt8
  | negativeInteger => 'J'.toUInt8
  | float => 'd'.toUInt8
  | string => 's'.toUInt8
  | symbol => 'x'.toUInt8
  | sendSite => 'S'.toUInt8
  | array => 'A'.toUInt8
  | tuple => 'p'.toUInt8
  | code => 'i'.toUInt8
  | method => 'M'.toUInt8

def all : List Tag :=
  [true, false, nil, integer, negativeInteger, float, string, symbol, sendSite, array, tuple,
    code, method]

/-- The tag with a letter. -/
def ofByte? (letter : UInt8) : Option Tag := all.find? fun tag => tag.byte == letter

theorem ofByte?_byte (tag : Tag) : ofByte? tag.byte = some tag := by
  cases tag <;> decide

end Tag

end CompiledCode
