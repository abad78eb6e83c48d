import CompiledCode.Proofs.Bytes.Movement
import CompiledCode.Proofs.Bytes.VarintRoundTrip
import CompiledCode.Proofs.Value.Descent

/-!
Many properties of readings pass from the parts of a reading to the whole. Such a property holds of
the descent through a value as soon as it holds of the readings of single bytes and numbers.
-/

namespace CompiledCode

/-- The bytes of one value may be at fault, but no record has a wrong number of fields. -/
def ReadError.IsOfBytes : ReadError → Prop
  | .recordArity _ | .trailingBytes _ => False
  | _ => True

theorem Binary64.isOfBytes_of_ofLine {text : List UInt8} {failure : ReadError}
    (failed : ofLine text = .error failure) : failure.IsOfBytes := by
  unfold ofLine at failed
  split at failed
  · cases failed
  · cases failed
    trivial

namespace Read

/-- The property holds of the readings that all others consist of and passes on to sequences. -/
structure Passes (property : {α : Type} → Read α → Prop) : Prop where
  pure {α : Type} (a : α) : property (pure a : Read α)
  throw {α : Type} {failure : ReadError} : failure.IsOfBytes → property (throw failure : Read α)
  bind {α β : Type} {read : Read α} {next : α → Read β} :
    property read → (∀ a, property (next a)) → property (read >>= next)
  offset : property offset
  byte : property byte
  bytes (count : Nat) : property (bytes count)
  line : property line
  word : property Varint.word
  natural : property Varint.natural

namespace Passes

variable {property : {α : Type} → Read α → Prop} (passes : Passes property)

include passes

theorem count : property Varint.count := by
  rw [Varint.count, map_eq_pure_bind]
  exact passes.bind passes.word fun _ => passes.pure _

theorem countedBytes : property countedBytes := passes.bind passes.count passes.bytes

theorem float : property float := by
  refine passes.bind passes.line fun text => ?_
  cases result : Binary64.ofLine text with
  | ok x => exact passes.pure _
  | error failure => exact passes.throw (Binary64.isOfBytes_of_ofLine result)

theorem repeated {α : Type} {item : Read α} (reading : property item) (count : Nat) :
    property (repeated item count) := by
  induction count with
  | zero => exact passes.pure _
  | succ count inductionHypothesis =>
    exact passes.bind reading fun _ => passes.bind inductionHypothesis fun _ => passes.pure _

theorem record {α : Type} {item : Read α} (reading : property item) : property (record item) := by
  unfold Read.record
  iterate 14 refine passes.bind reading fun _ => ?_
  exact passes.pure _

theorem content {inner : Read Value} (reading : property inner) (tag : Tag) :
    property (Value.content inner tag) := by
  cases tag with
  | true | false | nil => exact passes.pure _
  | integer | negativeInteger => exact passes.bind passes.natural fun _ => passes.pure _
  | float => exact passes.bind passes.float fun _ => passes.pure _
  | string | symbol | sendSite => exact passes.bind passes.countedBytes fun _ => passes.pure _
  | array | tuple =>
    exact passes.bind passes.count fun count =>
      passes.bind (passes.repeated reading count) fun _ => passes.pure _
  | code =>
    exact passes.bind passes.count fun count =>
      passes.bind (passes.repeated passes.word count) fun _ => passes.pure _
  | method =>
    refine passes.bind passes.word fun version => ?_
    split
    · exact passes.throw trivial
    · exact passes.bind (passes.record reading) fun _ => passes.pure _

/-- The property holds of the reading of a value at any depth. -/
theorem descend (limit depth : Nat) : property (Value.descend limit depth) := by
  rw [Value.descend]
  split
  · exact passes.throw trivial
  · refine passes.bind passes.offset fun start => passes.bind passes.byte fun letter => ?_
    cases Tag.ofByte? letter with
    | none => exact passes.throw trivial
    | some tag => exact passes.content (descend limit (depth + 1)) tag
termination_by limit - depth

end Passes

theorem movesForward_passes : Passes MovesForward where
  pure := pure_movesForward
  throw := fun _ => throw_movesForward _
  bind := bind_movesForward
  offset := offset_movesForward
  byte := byte_movesForward
  bytes := bytes_movesForward
  line := line_movesForward
  word := Varint.word_movesForward
  natural := Varint.natural_movesForward

theorem failsOnlyWith_passes : Passes (FailsOnlyWith ReadError.IsOfBytes) where
  pure := pure_failsOnlyWith
  throw := throw_failsOnlyWith
  bind := bind_failsOnlyWith
  offset := offset_failsOnlyWith
  byte := byte_failsOnlyWith fun _ => trivial
  bytes := bytes_failsOnlyWith fun _ => trivial
  line := line_failsOnlyWith fun _ => trivial
  word := Varint.word_failsOnlyWith (fun _ => trivial) fun _ => trivial
  natural := Varint.natural_failsOnlyWith fun _ => trivial

end Read

end CompiledCode
