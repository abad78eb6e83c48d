import CompiledCode.Bytes.Varint
import CompiledCode.Float.Line
import CompiledCode.Value.Marshal

/-!
Reading a value back. The containers that are not complete yet are kept on a list, innermost
first, so that the depth of the value is bounded by a limit and not by the depth of a recursion.
The loop takes the nodes from any source: those that bytes spell, or the same ones with a record of
where they were looked for.
-/

namespace CompiledCode

/-- The kinds of values that hold other values. -/
inductive Container where
  | array
  | tuple
  | method
  deriving DecidableEq, Repr

/-- The stack size of a method, when it is known, is the stack depth of its code. -/
def MethodRecord.restoreStackDepth (record : Method) : Method :=
  match record.stackSize, record.code with
  | .integer size, .code block =>
    if 0 ≤ size then
      { record with code := .code { block with stackDepth := .ofNat size.toInt.toNat } }
    else record
  | _, _ => record

/-- The container with all its values. -/
def Container.close (items : List Value) : Container → Except ReadError Value
  | array => .ok (.array items)
  | tuple => .ok (.tuple items)
  | method =>
    match MethodRecord.ofFields? items with
    | some record => .ok (.method record.restoreStackDepth)
    | none => .error (.recordArity items.length)

/--
A container that waits for a value. After that value it waits for `missing` others, and the ones
that it has are in reverse.
-/
structure Frame where
  container : Container
  missing : Nat
  reversed : List Value

/-- A leaf, or the head of a container with the number of its values. -/
inductive Node where
  | leaf (value : Value)
  | open (container : Container) (count : Nat)

/-- What a complete value leads to: the outermost value, or containers that wait. -/
inductive Progress where
  | finished (value : Value)
  | waiting (frames : List Frame)

/-- A complete value goes to the innermost container and may complete it in turn. -/
def Progress.settle (value : Value) : List Frame → Except ReadError Progress
  | [] => .ok (.finished value)
  | ⟨container, 0, reversed⟩ :: frames => do
    let value ← container.close (value :: reversed).reverse
    settle value frames
  | ⟨container, missing + 1, reversed⟩ :: frames =>
    .ok (.waiting (⟨container, missing, value :: reversed⟩ :: frames))

/-- A container without values is complete at once. -/
def Progress.ofNode (frames : List Frame) : Node → Except ReadError Progress
  | .leaf value => settle value frames
  | .open container 0 => do
    let value ← container.close []
    settle value frames
  | .open container (missing + 1) => .ok (.waiting (⟨container, missing, []⟩ :: frames))

namespace Read

/-- Bytes after their number. -/
def countedBytes : Read (List UInt8) := Varint.count >>= bytes

/-- So many words. -/
def words : Nat → Read (List UInt64)
  | 0 => pure []
  | count + 1 => do
    let word ← Varint.word
    let rest ← words count
    return word :: rest

/-- The number on the rest of the line. -/
def float : Read Binary64 := do
  let text ← line
  match Binary64.ofLine text with
  | .ok x => return x
  | .error failure => throw failure

/-- The fields of a method follow the one record version that is known. -/
def recordHead : Read Node := do
  let version ← Varint.word
  if version = recordVersion then return .open .method MethodRecord.fieldNames.length
  else throw (.unsupportedRecord version)

/-- What follows a tag, up to the values of a container. -/
def payload : Tag → Read Node
  | .true => return .leaf .true
  | .false => return .leaf .false
  | .nil => return .leaf .nil
  | .integer => (fun (n : Nat) => .leaf (.ofInt n)) <$> Varint.natural
  | .negativeInteger => (fun (n : Nat) => .leaf (.ofInt (-n))) <$> Varint.natural
  | .float => (fun x => .leaf (.float x)) <$> float
  | .string => (fun bytes => .leaf (.string bytes)) <$> countedBytes
  | .symbol => (fun bytes => .leaf (.symbol bytes)) <$> countedBytes
  | .sendSite => (fun bytes => .leaf (.sendSite bytes)) <$> countedBytes
  | .array => (fun count => .open .array count) <$> Varint.count
  | .tuple => (fun count => .open .tuple count) <$> Varint.count
  | .code => (fun words => .leaf (.code (.ofWords words))) <$> (Varint.count >>= words)
  | .method => recordHead

/-- What follows the byte of a tag that was found at the offset. -/
def tagged (offset : Nat) (letter : UInt8) : Read Node :=
  match Tag.ofByte? letter with
  | some tag => payload tag
  | none => throw (.unsupportedTag letter offset)

/-- A leaf or the head of a container. -/
def node : Read Node := fun cursor => (byte >>= tagged cursor.offset) cursor

theorem words_advances (count : Nat) : (words count).Advances := by
  induction count with
  | zero => exact pure_advances _
  | succ count inductionHypothesis =>
    exact bind_advances Varint.word_advances fun _ =>
      bind_advances inductionHypothesis fun _ => pure_advances _

theorem countedBytes_advances : countedBytes.Advances :=
  bind_advances Varint.count_advances bytes_advances

theorem float_advances : float.Advances :=
  bind_advances line_advances fun text => by
    split
    · exact pure_advances _
    · exact throw_advances _

theorem recordHead_advances : recordHead.Advances :=
  bind_advances Varint.word_advances fun version => by
    split
    · exact pure_advances _
    · exact throw_advances _

theorem payload_advances (tag : Tag) : (payload tag).Advances := by
  cases tag with
  | true | false | nil => exact pure_advances _
  | integer | negativeInteger => exact map_advances _ Varint.natural_advances
  | float => exact map_advances _ float_advances
  | string | symbol | sendSite => exact map_advances _ countedBytes_advances
  | array | tuple => exact map_advances _ Varint.count_advances
  | code => exact map_advances _ (bind_advances Varint.count_advances words_advances)
  | method => exact recordHead_advances

theorem tagged_advances (offset : Nat) (letter : UInt8) : (tagged offset letter).Advances := by
  unfold tagged
  split
  · exact payload_advances _
  · exact throw_advances _

theorem node_shortens {cursor next : Cursor} {result : Node}
    (success : node cursor = .ok result next) : next.rest.length < cursor.rest.length := by
  simp only [node, bind, EStateM.bind] at success
  split at success
  · rename_i letter middle byteEq
    exact Nat.lt_of_le_of_lt (tagged_advances _ _ _ _ _ success) (byte_shortens byteEq)
  · cases success

end Read

/--
Where nodes come from: the next one at a place, and the place behind it, from which there is less
left to read.
-/
structure NodeSource (σ : Type) where
  next : σ → EStateM.Result ReadError σ Node
  left : σ → Nat
  shortens {place after : σ} {node : Node} (success : next place = .ok node after) :
    left after < left place

/-- The nodes that the bytes in front of a cursor spell. -/
def NodeSource.bytes : NodeSource Cursor where
  next := Read.node
  left := fun cursor => cursor.rest.length
  shortens := Read.node_shortens

namespace Value

/-- The value that completes the containers, of which there may be fewer than `limit`. -/
def readFrom {σ : Type} (source : NodeSource σ) (limit : Nat) (frames : List Frame) (place : σ) :
    EStateM.Result ReadError σ Value :=
  if limit ≤ frames.length then .error (.nestingTooDeep limit) place
  else match _success : source.next place with
    | .error failure after => .error failure after
    | .ok node after =>
      match Progress.ofNode frames node with
      | .error failure => .error failure after
      | .ok (.finished value) => .ok value after
      | .ok (.waiting frames) => readFrom source limit frames after
termination_by source.left place
decreasing_by exact source.shortens _success

/-- The containers are completed by what is read from bytes. -/
def readInto (limit : Nat) (frames : List Frame) (cursor : Cursor) :
    EStateM.Result ReadError Cursor Value :=
  readFrom .bytes limit frames cursor

/-- One value and all that it holds. A value that `limit` containers enclose is refused. -/
def read (limit : Nat) : Read Value := readInto limit []

/-- The one value that takes up all the bytes. -/
def unmarshal (limit : Nat) (bytes : List UInt8) : Except ReadError Value :=
  match read limit (.ofBytes bytes) with
  | .error failure _ => .error failure
  | .ok value cursor =>
    if cursor.isEmpty then .ok value else .error (.trailingBytes cursor.remaining)

end Value

end CompiledCode
