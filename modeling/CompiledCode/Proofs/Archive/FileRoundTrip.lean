import CompiledCode.Proofs.Archive.Header
import CompiledCode.Proofs.Value.NormalForms

/-!
The file of a method is accepted, whatever bytes its body holds, and its header says what the body
is. The method is found again in the body unless it is too deep for the settings.
-/

namespace CompiledCode

namespace CompiledFile

theorem encode_feed : Text.Utf8.encode "\n" = [10] := by decide

/-- The three lines stand in front of the body, each with a line feed. -/
theorem encode_eq (method : Method) :
    encode method = Text.Utf8.encode magicLine ++ 10 :: (Text.Utf8.encode (toString formatVersion) ++
      10 :: (Text.Utf8.encode (checksumOf (Value.method method).marshal) ++
        10 :: (Value.method method).marshal)) := by
  unfold encode
  simp only [Text.Utf8.encode_append, encode_feed, toString, List.append_assoc, List.cons_append,
    List.nil_append]

/-- The file of a method as it is loaded, before its body is decoded. -/
def ofMethod (config : Config) (method : Method) : CompiledFile where
  header := ⟨magicLine, formatVersion, checksumOf (Value.method method).marshal⟩
  rawBody := (Value.method method).marshal
  config := config
  decoded := none

theorem parse_encode (config : Config) (method : Method) :
    parse config (encode method) = .ok (ofMethod config method) := by
  rw [encode_eq]
  exact parse_lines config (checksumOf_isVisible _) _

/-- Digits are compared in letters of any case, and those of a digest are lower-case. -/
theorem checksumFits_self (body : List UInt8) :
    checksumFits (checksumOf body) (checksumOf body) = true := by
  rw [checksumFits, checksumOf, lowerAscii_bytesHexadecimal, beq_self_eq_true, Bool.or_true]

theorem verify_ofMethod (config : Config) (method : Method) :
    (ofMethod config method).verify = .ok () := by
  unfold verify ofMethod
  dsimp only
  rw [checksumFits_self, if_pos rfl, ite_self]

/-- Whether the body gives the method is decided by reading it alone, for its checksum fits. -/
theorem method_ofMethod (config : Config) (given : Method) :
    (ofMethod config given).method.1 =
      (Value.unmarshal config.maxDepth (Value.method given).marshal).mapError .read >>=
        methodOf := by
  have decoding : (ofMethod config given).decodeBody =
      (Value.unmarshal config.maxDepth (Value.method given).marshal).mapError .read := by
    rw [decodeBody, decodeBodyWith, verify_ofMethod]
    rfl
  have unread : (ofMethod config given).decoded = none := rfl
  unfold method body
  rw [unread, decoding]
  cases Value.unmarshal config.maxDepth (Value.method given).marshal <;> rfl

end CompiledFile

namespace Value

theorem announcedDepth_ofInt {size : Nat} (fits : size < 2 ^ 63) :
    announcedDepth (integer (.ofInt size)) = .ofNat size := by
  have back : (Int64.ofInt size).toInt = size := Int64.toInt_ofInt_of_le (by omega) (by omega)
  have isNatural : 0 ≤ Int64.ofInt size := by
    rw [Int64.le_iff_toInt_le, back, Int64.toInt_zero]
    omega
  rw [announcedDepth, if_pos isNatural, back, Int.toNat_natCast]

/-- The stack size of a normal form announces the number that it is, big or not. -/
theorem announcedDepth_of_same {value : Value} {size : Nat} (normal : Normal 0 value)
    (fits : size < 2 ^ 63) (same : value.same (ofInt size) = .true) :
    (announcedDepth value).toNat = size := by
  have sizeIs : ofInt size = integer (.ofInt size) := by
    rw [ofInt, if_pos (by omega)]
  have sameForm := (same_iff_canonical _ _).mp same
  rw [sizeIs, normal.canonical_eq] at sameForm
  rw [← announcedDepth_oneNaN, sameForm]
  change (announcedDepth (integer (.ofInt size))).toNat = size
  rw [announcedDepth_ofInt fits, UInt64.toNat_ofNat']
  omega

/-- In a normal form the code of every method has the depth that the stack size of the method is. -/
theorem stackDepth_of_size {value : Value} {depth : UInt64} (normal : Normal depth value)
    {record : Method} (inside : (method record).IsWithin value) {size : Nat} (fits : size < 2 ^ 63)
    (hasSize : record.stackSize.same (ofInt size) = .true) {block : CodeBlock}
    (isCode : record.code = code block) : block.stackDepth.toNat = size := by
  obtain ⟨_, nodeNormal⟩ := normal.within inside
  obtain ⟨others, body⟩ := nodeNormal.of_method
  rw [isCode] at body
  have sizeNormal : Normal 0 record.stackSize :=
    others _ (by simp [MethodRecord.otherFields])
  rw [body.stackDepth_eq, announcedDepth_of_same sizeNormal fits hasSize]

end Value

namespace CompiledFile

open Value

/--
The file of a method is accepted under any settings. Its header has the digits of the digest of the
body, and its body has the bytes of the method. If fewer containers than the settings allow enclose
each node, the method that the file gives is the same method. Its code and that of every method
inside it have the depth that the stack size says. Otherwise the limit is reported.
-/
theorem file_round_trip (config : Config) (given : Method) (sized : (Value.method given).Sized) :
    ∃ file, parse config (encode given) = .ok file ∧
      file.header.magic = "!RBIX" ∧ file.header.version = 0 ∧
      file.header.checksum.toList = (Digest.ofBytes file.rawBody).flatMap byteDigits ∧
      file.rawBody = (Value.method given).marshal ∧
      ((Value.method given).depth < config.maxDepth → ∃ loaded, file.method.1 = .ok loaded ∧
        (Value.method loaded).same (Value.method given) = .true ∧
        ∀ record size block, (Value.method record).IsWithin (Value.method loaded) →
          size < 2 ^ 63 → record.stackSize.same (ofInt (size : Nat)) = .true →
          record.code = code block → block.stackDepth.toNat = size) ∧
      (config.maxDepth ≤ (Value.method given).depth →
        file.method.1 = .error (.read (.nestingTooDeep config.maxDepth))) := by
  have digits : (checksumOf (Value.method given).marshal).toList =
      (Digest.ofBytes (Value.method given).marshal).flatMap byteDigits :=
    toList_bytesHexadecimal _
  refine ⟨ofMethod config given, parse_encode config given, rfl, rfl, digits, rfl, ?_, ?_⟩
  · intro shallow
    have reading := unmarshal_marshal_append sized shallow []
    rw [List.append_nil, if_pos rfl] at reading
    have normal := (found_of_unmarshal reading).normal
    have sameValue := same_canonical (Value.method given)
    rw [canonical_method] at reading normal sameValue
    refine ⟨(given.map canonical).restoreStackDepth, ?_, sameValue, ?_⟩
    · rw [method_ofMethod, reading]
      rfl
    · intro record size block inside fits hasSize isCode
      exact stackDepth_of_size normal inside fits hasSize isCode
  · intro deep
    have reading := unmarshal_marshal_deep sized deep []
    rw [List.append_nil] at reading
    rw [method_ofMethod, reading]
    rfl

/--
The name of the method looks like a header, and one of its literals is a method whose code has
another depth than its stack size says. Three containers enclose the innermost nodes.
-/
theorem file_round_trip_nested :
    let inner : Method := { MethodRecord.ofCode [109] ⟨[12], 3⟩ with code := code ⟨[12], 9⟩ }
    let given : Method := (MethodRecord.ofCode [10, 33, 82, 10, 32] ⟨[0], 0⟩).withLiterals
      [Value.method inner, bigInteger 7]
    (Value.method given).Sized ∧ (Value.method given).depth = 3 ∧
      (∃ file loaded, parse ⟨4, true, .info⟩ (encode given) = .ok file ∧
        file.rawBody = (Value.method given).marshal ∧ file.method.1 = .ok loaded ∧
        (Value.method loaded).same (Value.method given) = .true ∧
        ∀ record size block, (Value.method record).IsWithin (Value.method loaded) →
          size < 2 ^ 63 → record.stackSize.same (ofInt (size : Nat)) = .true →
          record.code = code block → block.stackDepth.toNat = size) ∧
      ∃ file, parse ⟨3, true, .info⟩ (encode given) = .ok file ∧
        file.method.1 = .error (.read (.nestingTooDeep 3)) := by
  intro inner given
  have innerSized : (Value.method inner).Sized := by
    refine .of_leaves (by decide) ?_
    simp only [children, MethodRecord.fields, List.forall_mem_cons, List.not_mem_nil,
      false_imp_iff, implies_true, and_true]
    decide
  have literalsSized : (tuple [Value.method inner, bigInteger 7]).Sized := by
    refine .node (by decide) ?_
    simp only [children, List.forall_mem_cons, List.not_mem_nil, false_imp_iff, implies_true,
      and_true]
    exact ⟨innerSized, .leaf (by decide) rfl⟩
  have sized : (Value.method given).Sized := by
    refine .node (by decide) ?_
    simp only [children, MethodRecord.fields, List.forall_mem_cons, List.not_mem_nil,
      false_imp_iff, implies_true, and_true]
    and_intros <;> first | exact literalsSized | exact .leaf (by decide) rfl
  have depthIs : (Value.method given).depth = 3 := by decide
  obtain ⟨file, parsed, _, _, _, rawBody, shallow, _⟩ :=
    file_round_trip ⟨4, true, .info⟩ given sized
  obtain ⟨loaded, isMethod, same, depths⟩ := shallow (by rw [depthIs]; decide)
  obtain ⟨tooDeep, tooDeepParsed, _, _, _, _, _, deep⟩ :=
    file_round_trip ⟨3, true, .info⟩ given sized
  refine ⟨sized, depthIs, ⟨file, loaded, parsed, rawBody, isMethod, same, depths⟩, ?_⟩
  exact ⟨tooDeep, tooDeepParsed, deep (by rw [depthIs])⟩

end CompiledFile

end CompiledCode
