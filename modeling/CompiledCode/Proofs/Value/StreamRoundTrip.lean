import CompiledCode.Proofs.Bytes.VarintRoundTrip
import CompiledCode.Proofs.Value.Canonical
import CompiledCode.Proofs.Value.Descent
import CompiledCode.Value.Method

/-!
The bytes of a value are read back as its canonical form whatever follows them, as long as few
enough containers enclose each node. A value that is too deep is refused with the limit itself.
-/

namespace CompiledCode

namespace Read

theorem countedBytes_accepts {data : List UInt8} (fits : data.length < 2 ^ 64) :
    countedBytes.Accepts (encodeLength data.length ++ data) data :=
  bind_accepts (Varint.count_accepts fits) (bytes_accepts data)

theorem float_accepts (x : Binary64) : float.Accepts (Text.Utf8.encode x.line) x.canonical := by
  obtain ⟨bytes, noFeed, lineEq, reads⟩ := x.encode_line
  rw [lineEq, float, ← List.append_nil (bytes ++ [10])]
  refine bind_accepts (line_accepts noFeed) ?_
  rw [reads]
  exact pure_accepts _

theorem repeatedWord_accepts (words : List UInt64) :
    Accepts (repeated Varint.word words.length) (words.flatMap Varint.encodeWord) words := by
  have reading := repeated_accepts (fun word (_ : word ∈ words) => Varint.word_accepts word)
  rwa [List.map_id''] at reading
  exact fun _ => rfl

section Records

variable {item : Read Value} {encode : Value → List UInt8} {decode : Value → Value}
  {record : Method}

theorem record_accepts
    (each : ∀ field ∈ record.fields, item.Accepts (encode field) (decode field)) :
    Accepts (do let fields ← Read.record item
                return Value.method fields.restoreStackDepth)
      (record.fields.flatMap encode) (.method (record.map decode).restoreStackDepth) := by
  rw [← repeated_close_method, ← List.append_nil (record.fields.flatMap encode)]
  exact bind_accepts (repeated_accepts each) (pure_accepts _)

theorem record_refuses {failure : ReadError}
    (each : ∀ field ∈ record.fields,
      item.Accepts (encode field) (decode field) ∨ item.Refuses (encode field) failure)
    (one : ∃ field ∈ record.fields, item.Refuses (encode field) failure) :
    Refuses (do let fields ← Read.record item
                return Value.method fields.restoreStackDepth)
      (record.fields.flatMap encode) failure := by
  rw [← repeated_close_method, ← List.append_nil (record.fields.flatMap encode)]
  exact bind_refuses (repeated_refuses each one)

end Records

end Read

/-- An integer of 64 bits is written like any other integer. -/
theorem marshalInt64_eq (value : Int64) : marshalInt64 value = marshalInt value.toInt := by
  have low := value.le_toInt
  have high := value.toInt_lt
  have fits : value.toInt.natAbs < 2 ^ 64 := by omega
  rw [marshalInt64, marshalInt, Varint.encodeWord_eq, UInt64.toNat_ofNat', Nat.mod_eq_of_lt fits]
  simp only [Int64.lt_iff_toInt_lt, Int64.toInt_zero]

namespace Value

open Read

theorem ofInt_toInt (value : Int64) : ofInt value.toInt = integer value := by
  rw [ofInt, if_pos ⟨value.le_toInt, value.toInt_lt⟩, Int64.ofInt_toInt]

section Nodes

variable {limit depth : Nat}

theorem tagged_accepts {tag : Tag} {payload : List UInt8} {value : Value} (shallow : depth < limit)
    (reading : (content (descend limit (depth + 1)) tag).Accepts payload value) :
    (descend limit depth).Accepts (tag.byte :: payload) value := by
  rw [descend, if_neg (Nat.not_le.mpr shallow)]
  refine offset_bind_accepts fun start => ?_
  refine bind_accepts (byte_accepts tag.byte) ?_
  rw [Tag.ofByte?_byte]
  exact reading

theorem tagged_refuses {tag : Tag} {payload : List UInt8} {failure : ReadError}
    (shallow : depth < limit)
    (reading : (content (descend limit (depth + 1)) tag).Refuses payload failure) :
    (descend limit depth).Refuses (tag.byte :: payload) failure := by
  rw [descend, if_neg (Nat.not_le.mpr shallow)]
  refine offset_bind_refuses fun start => ?_
  refine bind_refuses_rest (byte_accepts tag.byte) ?_
  rw [Tag.ofByte?_byte]
  exact reading

theorem marshalInt_accepts (shallow : depth < limit) (value : Int) :
    (descend limit depth).Accepts (marshalInt value) (ofInt value) := by
  rw [marshalInt]
  split
  · rename_i negative
    refine tagged_accepts shallow ?_
    have magnitude : -(value.natAbs : Int) = value := by omega
    have reading := map_accepts (fun n : Nat => ofInt (-n)) (Varint.natural_accepts value.natAbs)
    rw [magnitude] at reading
    exact reading
  · rename_i positive
    refine tagged_accepts shallow ?_
    have magnitude : (value.natAbs : Int) = value := by omega
    have reading := map_accepts (fun n : Nat => ofInt n) (Varint.natural_accepts value.natAbs)
    rw [magnitude] at reading
    exact reading

theorem float_accepts (shallow : depth < limit) (x : Binary64) :
    (descend limit depth).Accepts (marshalFloat x) (float x.canonical) :=
  tagged_accepts shallow (map_accepts _ (Read.float_accepts x))

theorem code_accepts (shallow : depth < limit) {block : CodeBlock}
    (fits : block.words.length < 2 ^ 64) :
    (descend limit depth).Accepts block.marshal (code (.ofWords block.words)) :=
  tagged_accepts shallow
    (bind_accepts (Varint.count_accepts fits) (map_accepts _ (repeatedWord_accepts block.words)))

theorem items_accepts (shallow : depth < limit) {items : List Value} (fits : items.length < 2 ^ 64)
    (each : ∀ item ∈ items, (descend limit (depth + 1)).Accepts item.marshal item.canonical) :
    (descend limit depth).Accepts (array items).marshal (array items).canonical ∧
    (descend limit depth).Accepts (tuple items).marshal (tuple items).canonical := by
  have values := repeated_accepts each
  rw [canonical_array, canonical_tuple, marshal, marshal, marshalAll_eq_flatMap]
  constructor
  · exact tagged_accepts shallow
      (bind_accepts (Varint.count_accepts fits) (map_accepts array values))
  · exact tagged_accepts shallow
      (bind_accepts (Varint.count_accepts fits) (map_accepts tuple values))

theorem items_refuses (shallow : depth < limit) {items : List Value} {failure : ReadError}
    (fits : items.length < 2 ^ 64)
    (each : ∀ item ∈ items, (descend limit (depth + 1)).Accepts item.marshal item.canonical ∨
      (descend limit (depth + 1)).Refuses item.marshal failure)
    (one : ∃ item ∈ items, (descend limit (depth + 1)).Refuses item.marshal failure) :
    (descend limit depth).Refuses (array items).marshal failure ∧
    (descend limit depth).Refuses (tuple items).marshal failure := by
  have values := repeated_refuses each one
  rw [marshal, marshal, marshalAll_eq_flatMap, ← List.append_nil (items.flatMap marshal)]
  constructor
  · exact tagged_refuses shallow
      (bind_refuses_rest (Varint.count_accepts fits) (bind_refuses values))
  · exact tagged_refuses shallow
      (bind_refuses_rest (Varint.count_accepts fits) (bind_refuses values))

theorem method_accepts (shallow : depth < limit) {record : Method}
    (each : ∀ field ∈ record.fields,
      (descend limit (depth + 1)).Accepts field.marshal field.canonical) :
    (descend limit depth).Accepts (method record).marshal (method record).canonical := by
  rw [marshal_method, canonical_method]
  refine tagged_accepts shallow (bind_accepts (Varint.word_accepts recordVersion) ?_)
  rw [if_neg (by decide)]
  exact record_accepts each

theorem method_refuses (shallow : depth < limit) {record : Method} {failure : ReadError}
    (each : ∀ field ∈ record.fields,
      (descend limit (depth + 1)).Accepts field.marshal field.canonical ∨
      (descend limit (depth + 1)).Refuses field.marshal failure)
    (one : ∃ field ∈ record.fields, (descend limit (depth + 1)).Refuses field.marshal failure) :
    (descend limit depth).Refuses (method record).marshal failure := by
  rw [marshal_method]
  refine tagged_refuses shallow (bind_refuses_rest (Varint.word_accepts recordVersion) ?_)
  rw [if_neg (by decide)]
  exact record_refuses each one

end Nodes

/-- A value that is not too deep is read back as its canonical form. -/
theorem descend_accepts {limit : Nat} {value : Value} (sized : value.Sized) {depth : Nat}
    (shallow : depth + value.depth < limit) :
    (descend limit depth).Accepts value.marshal value.canonical := by
  induction value using childInduction generalizing depth with
  | step value inductionHypothesis =>
    have inner : ∀ child ∈ value.children,
        (descend limit (depth + 1)).Accepts child.marshal child.canonical := by
      intro child member
      have below := depth_lt_of_mem_children member
      exact inductionHypothesis child member (sized.child member) (by omega)
    have here : depth < limit := by omega
    have fits := sized.extent_lt
    cases value with
    | nil | true | false => exact tagged_accepts here (pure_accepts _)
    | integer value =>
      have reading := marshalInt_accepts here value.toInt
      rwa [← marshalInt64_eq, ofInt_toInt] at reading
    | bigInteger value => exact marshalInt_accepts here value
    | float x => exact float_accepts here x
    | string bytes | symbol bytes | sendSite bytes =>
      exact tagged_accepts here (map_accepts _ (countedBytes_accepts fits))
    | array items => exact (items_accepts here fits inner).1
    | tuple items => exact (items_accepts here fits inner).2
    | code block => exact code_accepts here fits
    | method record => exact method_accepts here inner

/-- A value that is too deep is refused, and the values before the one at fault are not. -/
theorem descend_refuses {limit : Nat} {value : Value} (sized : value.Sized) {depth : Nat}
    (deep : limit ≤ depth + value.depth) :
    (descend limit depth).Refuses value.marshal (.nestingTooDeep limit) := by
  induction value using childInduction generalizing depth with
  | step value inductionHypothesis =>
    by_cases atOnce : limit ≤ depth
    · rw [descend, if_pos atOnce]
      exact fun start tail => ⟨_, rfl⟩
    · have each : ∀ child ∈ value.children,
          (descend limit (depth + 1)).Accepts child.marshal child.canonical ∨
          (descend limit (depth + 1)).Refuses child.marshal (.nestingTooDeep limit) := by
        intro child member
        by_cases childShallow : depth + 1 + child.depth < limit
        · exact .inl (descend_accepts (sized.child member) childShallow)
        · exact .inr (inductionHypothesis child member (sized.child member) (by omega))
      -- Some held value is as deep as the whole allows, so the reading does not get past it.
      have one : ∃ child ∈ value.children,
          (descend limit (depth + 1)).Refuses child.marshal (.nestingTooDeep limit) := by
        have room : 0 < limit - depth := by omega
        have reached : limit - depth ≤ value.depth := by omega
        obtain ⟨child, member, childDeep⟩ := exists_child_of_le_depth room reached
        exact ⟨child, member, inductionHypothesis child member (sized.child member) (by omega)⟩
      have here : depth < limit := Nat.not_le.mp atOnce
      have fits := sized.extent_lt
      cases value with
      | array items => exact (items_refuses here fits each one).1
      | tuple items => exact (items_refuses here fits each one).2
      | method record => exact method_refuses here each one
      | _ =>
        obtain ⟨child, member, _⟩ := one
        cases member

/-- The canonical forms of the values with the offsets at which their bytes end. -/
def laidOut (start : Nat) : List Value → List (Value × Nat)
  | [] => []
  | first :: rest =>
    let stop := start + first.marshal.length
    (first.canonical, stop) :: laidOut stop rest

/-- One reading after another takes the bytes of one value after another. -/
theorem repeated_placed {item : Read Value} {values : List Value}
    (each : ∀ value ∈ values, item.Accepts value.marshal value.canonical) (start : Nat)
    (tail : List UInt8) :
    repeated (placed item) values.length ⟨start, values.flatMap marshal ++ tail⟩ =
      .ok (laidOut start values) ⟨start + (values.flatMap marshal).length, tail⟩ := by
  induction values generalizing start with
  | nil => rfl
  | cons first rest inductionHypothesis =>
    have firstRead : placed item ⟨start, first.marshal ++ (rest.flatMap marshal ++ tail)⟩ =
        .ok (first.canonical, start + first.marshal.length)
          ⟨start + first.marshal.length, rest.flatMap marshal ++ tail⟩ :=
      bind_eq_ok.mpr ⟨_, _, each first List.mem_cons_self start _, rfl⟩
    have restRead := inductionHypothesis (fun value member => each value (.tail _ member))
      (start + first.marshal.length)
    rw [List.flatMap_cons, List.append_assoc, List.length_append, ← Nat.add_assoc]
    exact bind_eq_ok.mpr ⟨_, _, firstRead, bind_eq_ok.mpr ⟨_, _, restRead, rfl⟩⟩

theorem unmarshal_marshal_append {limit : Nat} {value : Value} (sized : value.Sized)
    (shallow : value.depth < limit) (tail : List UInt8) :
    unmarshal limit (value.marshal ++ tail) =
      if tail = [] then .ok value.canonical else .error (.trailingBytes tail.length) := by
  have reading : (descend limit 0).Accepts value.marshal value.canonical :=
    descend_accepts sized (by omega)
  rw [unmarshal, Cursor.ofBytes, read_eq_descend, reading]
  cases tail <;> rfl

theorem unmarshal_marshal_deep {limit : Nat} {value : Value} (sized : value.Sized)
    (deep : limit ≤ value.depth) (tail : List UInt8) :
    unmarshal limit (value.marshal ++ tail) = .error (.nestingTooDeep limit) := by
  have reading : (descend limit 0).Refuses value.marshal (.nestingTooDeep limit) :=
    descend_refuses sized (by omega)
  obtain ⟨next, failed⟩ := reading 0 tail
  rw [unmarshal, Cursor.ofBytes, read_eq_descend, failed]

/--
Values that are written one after another are read back one after another, and the depth of a value
decides exactly whether it is. Bytes that are left over do not disturb a reading, but the one value
that takes up all the bytes may not leave any.
-/
theorem marshal_round_trip (limit : Nat) :
    (∀ (values : List Value) (tail : List UInt8),
      (∀ value ∈ values, value.Sized ∧ value.depth < limit) →
      repeated (placed (read limit)) values.length (.ofBytes (values.flatMap marshal ++ tail)) =
        .ok (laidOut 0 values) ⟨(values.flatMap marshal).length, tail⟩) ∧
    (∀ (value : Value) (start : Nat) (tail : List UInt8), value.Sized → limit ≤ value.depth →
      ∃ next, read limit ⟨start, value.marshal ++ tail⟩ = .error (.nestingTooDeep limit) next) ∧
    (∀ value : Value, value.Sized →
      ((∃ result, unmarshal limit value.marshal = .ok result ∧ result.same value = .true) ↔
        value.depth < limit)) ∧
    (∀ (value : Value) (tail : List UInt8), value.Sized → tail ≠ [] → value.depth < limit →
      unmarshal limit (value.marshal ++ tail) = .error (.trailingBytes tail.length)) := by
  refine ⟨?_, ?_, ?_, ?_⟩
  · intro values tail small
    have each : ∀ value ∈ values, (read limit).Accepts value.marshal value.canonical := by
      intro value member
      obtain ⟨sized, shallow⟩ := small value member
      rw [read_eq_descend]
      exact descend_accepts sized (by omega)
    rw [Cursor.ofBytes, repeated_placed each, Nat.zero_add]
  · intro value start tail sized deep
    rw [read_eq_descend]
    exact descend_refuses sized (by omega) start tail
  · intro value sized
    constructor
    · rintro ⟨result, success, _⟩
      by_contra deep
      have failed := unmarshal_marshal_deep sized (Nat.not_lt.mp deep) []
      rw [List.append_nil, success] at failed
      cases failed
    · intro shallow
      have success := unmarshal_marshal_append sized shallow []
      rw [List.append_nil, if_pos rfl] at success
      exact ⟨value.canonical, success, same_canonical value⟩
  · intro value tail sized left shallow
    rw [unmarshal_marshal_append sized shallow, if_neg left]

/--
A method takes its stack depth from its stack size of three. Two containers enclose the innermost
nodes of this value, so a limit of three is enough.
-/
theorem marshal_round_trip_nested :
    let record : Method := MethodRecord.ofCode [109] ⟨[12], 3⟩
    let stale : Method := { record with code := code ⟨[12], 9⟩ }
    let value := array [method stale, tuple [bigInteger 7], code ⟨[0], 9⟩]
    value.Sized ∧ value.depth = 2 ∧
    repeated (placed (read 3)) 2 (.ofBytes ([value, nil].flatMap marshal ++ [255])) =
      .ok [(array [method record, tuple [integer 7], code ⟨[0], 0⟩], value.marshal.length),
        (nil, value.marshal.length + 1)] ⟨value.marshal.length + 1, [255]⟩ ∧
    (∃ next, read 2 ⟨0, value.marshal ++ [255]⟩ = .error (.nestingTooDeep 2) next) ∧
    (∃ result, unmarshal 3 value.marshal = .ok result ∧ result.same value = .true) ∧
    unmarshal 3 (value.marshal ++ [255]) = .error (.trailingBytes 1) := by
  intro record stale value
  have staleSized : (method stale).Sized := by
    refine .node (by decide) ?_
    simp only [children, MethodRecord.fields, List.forall_mem_cons, List.not_mem_nil,
      false_imp_iff, implies_true, and_true]
    and_intros <;> exact .leaf (by decide) rfl
  have tupleSized : (tuple [bigInteger 7]).Sized := by
    refine .node (by decide) ?_
    simp only [children, List.forall_mem_singleton]
    exact .leaf (by decide) rfl
  have sized : value.Sized := by
    refine .node (by decide) ?_
    simp only [value, children, List.forall_mem_cons, List.not_mem_nil, false_imp_iff,
      implies_true, and_true]
    exact ⟨staleSized, tupleSized, .leaf (by decide) rfl⟩
  have depthIs : value.depth = 2 := by decide
  have nilSized : nil.Sized := .leaf (by decide) rfl
  have stream := (marshal_round_trip 3).1 [value, nil] [255] (by
    simp only [List.forall_mem_cons, List.not_mem_nil, false_imp_iff, implies_true, and_true]
    exact ⟨⟨sized, by omega⟩, nilSized, by decide⟩)
  refine ⟨sized, depthIs, ?_, ?_, ?_, ?_⟩
  · have readBack : value.canonical =
        array [method record, tuple [integer 7], code ⟨[0], 0⟩] := rfl
    have nilReadBack : nil.canonical = nil := rfl
    have nilBytes : nil.marshal = [Tag.nil.byte] := rfl
    simpa [laidOut, readBack, nilReadBack, nilBytes] using stream
  · exact (marshal_round_trip 2).2.1 value 0 [255] sized (by omega)
  · exact ((marshal_round_trip 3).2.2.1 value sized).mpr (by omega)
  · exact (marshal_round_trip 3).2.2.2 value [255] sized (by decide) (by omega)

end Value

end CompiledCode
