import CompiledCode.Proofs.Bytes.Delimiting
import CompiledCode.Proofs.Value.Composition
import CompiledCode.Proofs.Value.StreamRoundTrip

/-!
The bytes of a value say where they end. Whatever bytes are accepted, also those that no value is
written as, are accepted with anything behind them and with nothing missing.
-/

namespace CompiledCode

theorem Read.delimits_passes : Read.Passes Read.Delimits where
  pure := pure_delimits
  throw := fun _ => throw_delimits _
  bind := bind_delimits
  offset := offset_delimits
  byte := byte_delimits
  bytes := bytes_delimits
  line := line_delimits
  word := Varint.word_delimits
  natural := Varint.natural_delimits

namespace Value

/--
The bytes that are accepted as a value decide alone: with other bytes behind them they are the same
value, and with some of them missing the failure is that of the end of the input. So no other bytes
at the start of the input are a value.
-/
theorem read_delimits {limit start : Nat} {bytes : List UInt8} {value : Value} {next : Cursor}
    (success : read limit ⟨start, bytes⟩ = .ok value next) :
    ∃ count ≤ bytes.length, next = ⟨start + count, bytes.drop count⟩ ∧
      (∀ tail, read limit ⟨start, bytes.take count ++ tail⟩ = .ok value ⟨start + count, tail⟩) ∧
      (∀ shorter < count, ∃ last, read limit ⟨start, bytes.take shorter⟩ =
        .error (.unexpectedEnd (start + shorter)) last) ∧
      ∀ (other : Nat) (otherValue : Value), other ≤ bytes.length →
        read limit ⟨start, bytes.take other⟩ = .ok otherValue ⟨start + other, []⟩ →
        other = count ∧ otherValue = value := by
  rw [read_eq_descend] at success ⊢
  obtain ⟨taken, parts, takes⟩ := Read.delimits_passes.descend limit 0 _ _ _ success
  dsimp only at parts takes
  have taking : bytes.take taken.length = taken := by rw [parts, List.take_left]
  have within : taken.length ≤ bytes.length := by
    rw [parts, List.length_append]
    exact Nat.le_add_right _ _
  refine ⟨taken.length, within, ?_, ?_, ?_, ?_⟩
  · have whole := takes.whole next.rest
    rw [← parts, success] at whole
    injection whole with _ stop
    rw [stop, parts, List.drop_left]
  · rw [taking]
    exact takes.whole
  · intro shorter few
    have inside : bytes.take shorter = taken.take shorter := by
      rw [← taking, List.take_take, Nat.min_eq_left few.le]
    rw [inside]
    exact takes.cut_take few
  · intro other otherValue inside otherSuccess
    have length : (bytes.take other).length = other := List.length_take_of_le inside
    have isPrefix : bytes.take other <+: taken ++ next.rest := parts ▸ List.take_prefix other bytes
    obtain ⟨same, sameValue⟩ := takes.unique isPrefix (by rw [length]; exact otherSuccess)
    exact ⟨by rw [← same, length], sameValue⟩

/--
A count of two bytes, a zero with a minus sign and a number without a digit in front of its point
are accepted, and each of the thirteen bytes is needed.
-/
theorem read_delimits_overlong :
    let bytes : List UInt8 := [65, 130, 0, 74, 0, 100, 32, 46, 53, 32, 43, 49, 10]
    let value : Value := .array [.integer 0, .float ⟨0x3FF0000000000000⟩]
    read 2 ⟨0, bytes ++ [255]⟩ = .ok value ⟨13, [255]⟩ ∧
    (∀ tail, read 2 ⟨0, bytes ++ tail⟩ = .ok value ⟨13, tail⟩) ∧
    ∀ shorter < 13, ∃ last,
      read 2 ⟨0, bytes.take shorter⟩ = .error (.unexpectedEnd shorter) last := by
  intro bytes value
  have two : Varint.count.Accepts [130, 0] 2 := fun _ _ => rfl
  have zero : (descend 2 1).Accepts (Tag.negativeInteger.byte :: [0]) (.integer 0) :=
    tagged_accepts (by decide) fun _ _ => rfl
  have number : Binary64.ofLine [32, 46, 53, 32, 43, 49] = .ok ⟨0x3FF0000000000000⟩ := by
    decide +kernel
  have line : Read.float.Accepts ([32, 46, 53, 32, 43, 49] ++ [10] ++ []) ⟨0x3FF0000000000000⟩ := by
    refine Read.bind_accepts (Read.line_accepts (by simp)) ?_
    rw [number]
    exact Read.pure_accepts _
  have one : (descend 2 1).Accepts (Tag.float.byte :: [32, 46, 53, 32, 43, 49, 10])
      (.float ⟨0x3FF0000000000000⟩) :=
    tagged_accepts (by decide) (Read.map_accepts _ line)
  have items : (Read.repeated (descend 2 1) 2).Accepts
      ((Tag.negativeInteger.byte :: [0]) ++
        ((Tag.float.byte :: [32, 46, 53, 32, 43, 49, 10]) ++ [] ++ []))
      [.integer 0, .float ⟨0x3FF0000000000000⟩] :=
    Read.bind_accepts zero (Read.bind_accepts
      (Read.bind_accepts one (Read.bind_accepts (Read.pure_accepts []) (Read.pure_accepts _)))
      (Read.pure_accepts _))
  have whole : (descend 2 0).Accepts (Tag.array.byte :: ([130, 0] ++ bytes.drop 3)) value :=
    tagged_accepts (by decide) (Read.bind_accepts two (Read.map_accepts array items))
  have success : read 2 ⟨0, bytes ++ [255]⟩ = .ok value ⟨13, [255]⟩ := by
    rw [read_eq_descend]
    exact whole 0 [255]
  obtain ⟨count, _, stop, anyTail, cut, _⟩ := read_delimits success
  have offsets := congrArg Cursor.offset stop
  dsimp only at offsets
  have thirteen : count = 13 := by omega
  subst thirteen
  refine ⟨success, anyTail, fun shorter few => ?_⟩
  obtain ⟨last, failed⟩ := cut shorter few
  rw [Nat.zero_add, List.take_append_of_le_length (Nat.le_of_lt few)] at failed
  exact ⟨last, failed⟩

end Value

end CompiledCode
