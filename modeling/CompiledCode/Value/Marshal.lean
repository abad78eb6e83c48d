import CompiledCode.Bytes.Varint
import CompiledCode.Float.Line
import CompiledCode.Value.Basic
import CompiledCode.Value.Tag

/-!
The bytes of a value: a tag, then the payload of a leaf, or for a container the number of its
values and the values one after another.
-/

namespace CompiledCode

/-- The version of the method record. -/
def recordVersion : UInt64 := 1

/-- A length of 64 bits. -/
def encodeLength (length : Nat) : List UInt8 := Varint.encodeWord (.ofNat length)

def marshalBytes (tag : Tag) (bytes : List UInt8) : List UInt8 :=
  tag.byte :: (encodeLength bytes.length ++ bytes)

def marshalFloat (x : Binary64) : List UInt8 := Tag.float.byte :: Text.Utf8.encode x.line

/-- The words of a code block; its stack depth is not written. -/
def CodeBlock.marshal (block : CodeBlock) : List UInt8 :=
  Tag.code.byte :: (encodeLength block.words.length ++ block.words.flatMap Varint.encodeWord)

/-- The sign is in the tag and the magnitude follows as a word. -/
def marshalInt64 (value : Int64) : List UInt8 :=
  (if value < 0 then Tag.negativeInteger.byte else Tag.integer.byte) ::
    Varint.encodeWord (.ofNat value.toInt.natAbs)

/-- The sign is in the tag and the magnitude follows as a number of any size. -/
def marshalInt (value : Int) : List UInt8 :=
  (if value < 0 then Tag.negativeInteger.byte else Tag.integer.byte) ::
    Varint.encodeNatural value.natAbs

namespace Value

mutual

/-- The bytes of a value. -/
def marshal : Value → List UInt8
  | true => [Tag.true.byte]
  | false => [Tag.false.byte]
  | nil => [Tag.nil.byte]
  | integer value => marshalInt64 value
  | bigInteger value => marshalInt value
  | float value => marshalFloat value
  | string bytes => marshalBytes .string bytes
  | symbol name => marshalBytes .symbol name
  | sendSite name => marshalBytes .sendSite name
  | array items => Tag.array.byte :: (encodeLength items.length ++ marshalAll items)
  | tuple items => Tag.tuple.byte :: (encodeLength items.length ++ marshalAll items)
  | code block => block.marshal
  | method ⟨a₁, a₂, a₃, a₄, a₅, a₆, a₇, a₈, a₉, a₁₀, a₁₁, a₁₂, a₁₃, a₁₄⟩ =>
    Tag.method.byte :: (Varint.encodeWord recordVersion ++
      (marshal a₁ ++ (marshal a₂ ++ (marshal a₃ ++ (marshal a₄ ++ (marshal a₅ ++ (marshal a₆ ++
      (marshal a₇ ++ (marshal a₈ ++ (marshal a₉ ++ (marshal a₁₀ ++ (marshal a₁₁ ++
      (marshal a₁₂ ++ (marshal a₁₃ ++ marshal a₁₄))))))))))))))

/-- The bytes of several values one after another. -/
def marshalAll : List Value → List UInt8
  | [] => []
  | first :: rest => marshal first ++ marshalAll rest

end

theorem marshalAll_eq_flatMap (items : List Value) :
    marshalAll items = items.flatMap marshal := by
  induction items with
  | nil => simp [marshalAll]
  | cons first rest inductionHypothesis => simp [marshalAll, inductionHypothesis]

/-- The record version precedes the fields of a method. -/
theorem marshal_method (record : Method) :
    marshal (method record) = Tag.method.byte ::
      (Varint.encodeWord recordVersion ++ record.fields.flatMap marshal) := by
  simp [marshal, MethodRecord.fields]

end Value

/-- The fields of a method, without the tag and the version in front of them. -/
def MethodRecord.marshalFields (record : Method) : List UInt8 :=
  record.fields.flatMap Value.marshal

end CompiledCode
