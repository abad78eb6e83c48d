import CompiledCode.Archive.CompiledFile
import CompiledCode.Proofs.Value.StreamRoundTrip

/-!
Two values are the same exactly when they have the same canonical form, and that is when they have
the same bytes. So the bytes of a value may stand for the value wherever only sameness counts.
-/

namespace CompiledCode

namespace Binary64

theorem eq_iff_bits {x y : Binary64} : x.bits = y.bits ↔ x = y := by
  cases x
  cases y
  simp

theorem isNaN_nan : nan.isNaN = true := by decide

theorem same_iff_canonical (x y : Binary64) : x.same y = true ↔ x.canonical = y.canonical := by
  rw [same, canonical, canonical, Bool.or_eq_true, Bool.and_eq_true, beq_iff_eq, eq_iff_bits]
  by_cases xNaN : x.isNaN = true <;> by_cases yNaN : y.isNaN = true
  · simp [xNaN, yNaN]
  · have differ : x ≠ y := fun equal => yNaN (equal ▸ xNaN)
    have notNaN : nan ≠ y := fun equal => yNaN (equal ▸ isNaN_nan)
    simp [xNaN, yNaN, differ, notNaN]
  · have differ : x ≠ y := fun equal => xNaN (equal ▸ yNaN)
    have notNaN : x ≠ nan := fun equal => xNaN (equal ▸ isNaN_nan)
    simp [xNaN, yNaN, differ, notNaN]
  · simp [xNaN, yNaN]

/-- All NaN have the same line. -/
theorem line_canonical (x : Binary64) : x.canonical.line = x.line := by
  rw [canonical]
  split
  · rename_i notNumber
    rw [line, line, if_pos notNumber, if_pos isNaN_nan]
  · rfl

end Binary64

/-- The code of the method forgets its stack depth. -/
def MethodRecord.withoutDepth (record : Method) : Method :=
  match record.code with
  | .code block => { record with code := .code (.ofWords block.words) }
  | _ => record

/-- The depth that the stack size announces can be taken away again. -/
theorem MethodRecord.withoutDepth_withAnnouncedDepth {record : Method}
    (unknown : ∀ block, record.code = .code block → block.stackDepth = 0) :
    record.withAnnouncedDepth.withoutDepth = record := by
  obtain ⟨a₁, a₂, a₃, code, size, a₆, a₇, a₈, a₉, a₁₀, a₁₁, a₁₂, a₁₃, a₁₄⟩ := record
  cases code with
  | code block =>
    obtain ⟨words, stackDepth⟩ := block
    have depthZero : stackDepth = 0 := unknown _ rfl
    subst depthZero
    rfl
  | _ => rfl

namespace Value

theorem ofInt_inj {first second : Int} : ofInt first = ofInt second ↔ first = second := by
  refine ⟨fun equal => ?_, congrArg ofInt⟩
  unfold ofInt at equal
  split at equal <;> split at equal
  · rename_i firstFits secondFits
    injection equal with sameWord
    rw [← Int64.toInt_ofInt_of_le firstFits.1 firstFits.2, sameWord,
      Int64.toInt_ofInt_of_le secondFits.1 secondFits.2]
  · cases equal
  · cases equal
  · injection equal

theorem kindName_ofInt (value : Int) : (ofInt value).kindName = "integer" := by
  unfold ofInt
  split <;> rfl

/-- The canonical form of a value is of its kind. -/
theorem kindName_canonical (value : Value) : value.canonical.kindName = value.kindName := by
  cases value with
  | bigInteger value => exact kindName_ofInt value
  | _ => rfl

/-- Values of different kinds are not the same. -/
theorem kindName_eq_of_same {first second : Value} (same : first.same second = .true) :
    first.kindName = second.kindName := by
  cases first <;> cases second <;> first | rfl | cases same

theorem sameAll_iff {items : List Value}
    (each : ∀ item ∈ items, ∀ other : Value,
      item.same other = .true ↔ item.canonical = other.canonical) (others : List Value) :
    sameAll items others = .true ↔ items.map canonical = others.map canonical := by
  induction items generalizing others with
  | nil => cases others <;> simp [sameAll]
  | cons first rest inductionHypothesis =>
    obtain ⟨firstSame, restSame⟩ := List.forall_mem_cons.mp each
    cases others with
    | nil => simp [sameAll]
    | cons other others => simp [sameAll, firstSame, inductionHypothesis restSame]

theorem same_method_iff {first : Method}
    (each : ∀ field ∈ first.fields, ∀ other : Value,
      field.same other = .true ↔ field.canonical = other.canonical) (second : Method) :
    (method first).same (method second) = .true ↔
      (method first).canonical = (method second).canonical := by
  -- Without the announced depths the canonical records are those of the canonical fields.
  have depths : (method first).canonical = (method second).canonical ↔
      first.map canonical = second.map canonical := by
    constructor
    · intro equal
      injection equal with records
      have bare := congrArg MethodRecord.withoutDepth records
      rwa [MethodRecord.withoutDepth_withAnnouncedDepth fun _ => stackDepth_of_canonical,
        MethodRecord.withoutDepth_withAnnouncedDepth fun _ => stackDepth_of_canonical] at bare
    · intro equal
      rw [canonical_method, canonical_method, equal]
  rw [depths]
  obtain ⟨a₁, a₂, a₃, a₄, a₅, a₆, a₇, a₈, a₉, a₁₀, a₁₁, a₁₂, a₁₃, a₁₄⟩ := first
  obtain ⟨b₁, b₂, b₃, b₄, b₅, b₆, b₇, b₈, b₉, b₁₀, b₁₁, b₁₂, b₁₃, b₁₄⟩ := second
  simp only [MethodRecord.fields, List.forall_mem_cons] at each
  simp only [same, Bool.and_eq_true, each, MethodRecord.map, MethodRecord.mk.injEq, and_assoc]

/-- Values are the same when their canonical forms are equal. -/
theorem same_iff_canonical (first second : Value) :
    first.same second = .true ↔ first.canonical = second.canonical := by
  induction first using childInduction generalizing second with
  | step first inductionHypothesis =>
    by_cases kinds : first.kindName = second.kindName
    · cases first with
      | nil | true | false =>
        cases second <;> simp [kindName] at kinds
        simp [same]
      | integer value =>
        have whole : (integer value).canonical = ofInt value.toInt := (ofInt_toInt value).symm
        cases second with
        | integer other => simp [same, canonical]
        | bigInteger other => rw [same, whole, canonical, ofInt_inj, beq_iff_eq]
        | _ => simp [kindName] at kinds
      | bigInteger value =>
        cases second with
        | integer other =>
          have whole : (integer other).canonical = ofInt other.toInt := (ofInt_toInt other).symm
          rw [same, whole, canonical, ofInt_inj, beq_iff_eq]
        | bigInteger other => rw [same, canonical, canonical, ofInt_inj, beq_iff_eq]
        | _ => simp [kindName] at kinds
      | float value =>
        cases second with
        | float other => simp [same, canonical, Binary64.same_iff_canonical]
        | _ => simp [kindName] at kinds
      | string bytes | symbol name | sendSite name =>
        cases second <;> simp [kindName] at kinds
        simp [same, canonical]
      | array items =>
        cases second with
        | array others =>
          rw [same, canonical_array, canonical_array, array.injEq]
          exact sameAll_iff inductionHypothesis others
        | _ => simp [kindName] at kinds
      | tuple items =>
        cases second with
        | tuple others =>
          rw [same, canonical_tuple, canonical_tuple, tuple.injEq]
          exact sameAll_iff inductionHypothesis others
        | _ => simp [kindName] at kinds
      | code block =>
        cases second with
        | code other => simp [same, canonical, CodeBlock.sameCode, CodeBlock.ofWords]
        | _ => simp [kindName] at kinds
      | method record =>
        cases second with
        | method other => exact same_method_iff inductionHypothesis other
        | _ => simp [kindName] at kinds
    · refine iff_of_false (fun same => kinds (kindName_eq_of_same same)) fun equal => kinds ?_
      rw [← kindName_canonical first, equal, kindName_canonical]

theorem marshal_ofInt (value : Int) : (ofInt value).marshal = marshalInt value := by
  unfold ofInt
  split
  · rename_i fits
    rw [marshal, marshalInt64_eq, Int64.toInt_ofInt_of_le fits.1 fits.2]
  · rfl

theorem flatMap_marshal_canonical {items : List Value}
    (each : ∀ item ∈ items, item.canonical.marshal = item.marshal) :
    (items.map canonical).flatMap marshal = items.flatMap marshal := by
  rw [List.flatMap_map]
  exact List.flatMap_congr each

/-- The stack depth of the code is not written. -/
theorem marshal_withAnnouncedDepth (record : Method) :
    (method record.withAnnouncedDepth).marshal = (method record).marshal := by
  obtain ⟨a₁, a₂, a₃, code, a₅, a₆, a₇, a₈, a₉, a₁₀, a₁₁, a₁₂, a₁₃, a₁₄⟩ := record
  cases code <;> rfl

/-- A value is written like its canonical form. -/
theorem marshal_canonical (value : Value) : value.canonical.marshal = value.marshal := by
  induction value using childInduction with
  | step value inductionHypothesis =>
    have children := flatMap_marshal_canonical inductionHypothesis
    cases value with
    | bigInteger value => exact marshal_ofInt value
    | float x => simp [canonical, marshal, marshalFloat, Binary64.line_canonical]
    | array items =>
      rw [canonical_array, marshal, marshal, marshalAll_eq_flatMap, marshalAll_eq_flatMap,
        List.length_map]
      exact congrArg _ (congrArg _ children)
    | tuple items =>
      rw [canonical_tuple, marshal, marshal, marshalAll_eq_flatMap, marshalAll_eq_flatMap,
        List.length_map]
      exact congrArg _ (congrArg _ children)
    | method record =>
      rw [canonical, marshal_withAnnouncedDepth]
      change (method (record.map canonical)).marshal = _
      rw [marshal_method, marshal_method]
      exact congrArg _ (congrArg _ children)
    | _ => rfl

theorem marshal_eq_of_same {first second : Value} (same : first.same second = .true) :
    first.marshal = second.marshal := by
  rw [← marshal_canonical first, (same_iff_canonical first second).mp same, marshal_canonical]

/-- The same bytes are read back as the same canonical form. -/
theorem canonical_eq_of_marshal_eq {first second : Value} (firstSized : first.Sized)
    (secondSized : second.Sized) (sameBytes : first.marshal = second.marshal) :
    first.canonical = second.canonical := by
  have room : first.depth < max first.depth second.depth + 1 := by omega
  have secondRoom : second.depth < max first.depth second.depth + 1 := by omega
  have firstRead := unmarshal_marshal_append firstSized room []
  have secondRead := unmarshal_marshal_append secondSized secondRoom []
  rw [sameBytes, secondRead] at firstRead
  injection firstRead with equal
  exact equal.symm

/--
The bytes of a value are a canonical form of it: values are the same exactly when they have the same
bytes, where lengths of 64 bits are all that the bytes can tell. Sameness is an equivalence relation,
the files of the same methods are equal, and values that differ share no bytes.
-/
theorem same_iff_marshal_eq :
    (∀ first second : Value, first.same second = .true → first.marshal = second.marshal) ∧
    (∀ first second : Value, first.Sized → second.Sized →
      (first.same second = .true ↔ first.marshal = second.marshal)) ∧
    Equivalence (fun first second : Value => first.same second = .true) ∧
    (∀ first second : Method, (method first).same (method second) = .true →
      CompiledFile.encode first = CompiledFile.encode second) ∧
    (∀ first second : Value, first.Sized → second.Sized → first.same second = .false →
      first.marshal ≠ second.marshal) := by
  have decides : ∀ first second : Value, first.Sized → second.Sized →
      (first.same second = .true ↔ first.marshal = second.marshal) := by
    intro first second firstSized secondSized
    refine ⟨marshal_eq_of_same, fun sameBytes => ?_⟩
    rw [same_iff_canonical]
    exact canonical_eq_of_marshal_eq firstSized secondSized sameBytes
  refine ⟨fun _ _ => marshal_eq_of_same, decides, ?_, ?_, ?_⟩
  · simp only [same_iff_canonical]
    exact ⟨fun _ => rfl, Eq.symm, Eq.trans⟩
  · intro first second same
    rw [CompiledFile.encode, CompiledFile.encode, marshal_eq_of_same same]
  · intro first second firstSized secondSized differ sameBytes
    rw [(decides first second firstSized secondSized).mpr sameBytes] at differ
    cases differ

/--
Two ways to hold seven, two NaN and two depths of the same code make no difference, and the sign of
zero does.
-/
theorem same_iff_marshal_eq_mixed :
    let first := array [bigInteger 7, float ⟨0x7FF8000000000001⟩, code ⟨[12], 9⟩]
    let second := array [integer 7, float ⟨0xFFF0000000000002⟩, code ⟨[12], 0⟩]
    let record : Method := MethodRecord.ofCode [109] ⟨[12], 3⟩
    let stale : Method := { record with code := code ⟨[12], 9⟩ }
    (first.Sized ∧ second.Sized ∧ first.same second = .true ∧ first.marshal = second.marshal) ∧
    ((method record).same (method stale) = .true ∧
      CompiledFile.encode record = CompiledFile.encode stale) ∧
    (float (.zero .false)).same (float (.zero .true)) = .false ∧
    (float (.zero .false)).marshal ≠ (float (.zero .true)).marshal := by
  intro first second record stale
  have firstSized : first.Sized := .of_leaves (by decide) (by decide)
  have secondSized : second.Sized := .of_leaves (by decide) (by decide)
  have isSame : first.same second = .true := by rfl
  have recordSame : (method record).same (method stale) = .true := by rfl
  have zerosDiffer : (float (.zero .false)).same (float (.zero .true)) = .false := by rfl
  obtain ⟨_, decides, _, files, differ⟩ := same_iff_marshal_eq
  refine ⟨⟨firstSized, secondSized, isSame, ?_⟩, ⟨recordSame, files _ _ recordSame⟩,
    zerosDiffer, ?_⟩
  · exact (decides _ _ firstSized secondSized).mp isSame
  · exact differ _ _ (.leaf (by decide) rfl) (.leaf (by decide) rfl) zerosDiffer

end Value

end CompiledCode
