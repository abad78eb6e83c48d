import CompiledCode.Proofs.Value.Refinement
import CompiledCode.Proofs.Value.Sameness

/-!
Whatever bytes are accepted, the value that is read has a normal form: its integers take no more
room than they need, and its code has a stack depth only where a stack size announces one. Such a
value is read back from its own bytes as it is.
-/

namespace CompiledCode

namespace MethodRecord

variable {α : Type} {record : MethodRecord α}

/-- The fields besides the code. -/
def otherFields (record : MethodRecord α) : List α :=
  [record.ivars, record.primitive, record.name, record.stackSize, record.localCount,
    record.requiredArguments, record.totalArguments, record.splat, record.literals,
    record.handlers, record.lines, record.file, record.localNames]

theorem mem_fields_iff {field : α} :
    field ∈ record.fields ↔ field = record.code ∨ field ∈ record.otherFields := by
  simp only [fields, otherFields, List.mem_cons, List.not_mem_nil, or_false]
  tauto

theorem forall_mem_fields {property : α → Prop} :
    (∀ field ∈ record.fields, property field) ↔
      property record.code ∧ ∀ field ∈ record.otherFields, property field := by
  simp only [mem_fields_iff, forall_eq_or_imp]

end MethodRecord

namespace Read

/-- A length that is read is a word of 64 bits. -/
theorem count_answersOnly : Varint.count.AnswersOnly (· < 2 ^ 64) := by
  rw [Varint.count, map_eq_pure_bind]
  exact bind_answersOnly (any_answersOnly _) fun word _ => pure_answersOnly word.toNat_lt

theorem countedBytes_answersOnly : countedBytes.AnswersOnly (·.length < 2 ^ 64) := by
  refine bind_answersOnly count_answersOnly fun count fits => ?_
  intro cursor next bytes success
  exact lt_of_eq_of_lt (bytes_answersOnly count cursor next bytes success) fits

theorem record_answersOnly {α : Type} {allowed : α → Prop} {item : Read α}
    (each : item.AnswersOnly allowed) :
    (record item).AnswersOnly fun fields => ∀ field ∈ fields.fields, allowed field :=
  fun cursor next _ success =>
    (repeated_answersOnly each 14 cursor next _ (repeated_of_record success)).2

end Read

namespace Value

/-- Neither a container, nor code, nor an integer that may be too small for its constructor. -/
def IsScalar : Value → Prop
  | bigInteger _ | array _ | tuple _ | code _ | method _ => False
  | _ => True

theorem IsScalar.children_eq {value : Value} (isScalar : value.IsScalar) : value.children = [] := by
  cases value <;> first | rfl | cases isScalar

/-- A value in the form that reading gives it, where code has this stack depth. -/
inductive Normal : UInt64 → Value → Prop where
  | scalar {depth : UInt64} {value : Value} (isScalar : value.IsScalar) : Normal depth value
  | bigInteger {depth : UInt64} {value : Int} (wide : value < -(2 ^ 63) ∨ 2 ^ 63 ≤ value) :
    Normal depth (bigInteger value)
  | code {depth : UInt64} {words : List UInt64} : Normal depth (code ⟨words, depth⟩)
  | array {depth : UInt64} {items : List Value} (each : ∀ item ∈ items, Normal 0 item) :
    Normal depth (array items)
  | tuple {depth : UInt64} {items : List Value} (each : ∀ item ∈ items, Normal 0 item) :
    Normal depth (tuple items)
  | method {depth : UInt64} {record : Method} (each : ∀ field ∈ record.otherFields, Normal 0 field)
    (body : Normal (announcedDepth record.stackSize) record.code) : Normal depth (method record)

namespace Normal

variable {depth : UInt64} {value node : Value}

theorem ofInt (value : Int) : Normal depth (ofInt value) := by
  unfold Value.ofInt
  split
  · exact .scalar trivial
  · exact .bigInteger (by omega)

/-- The expected depth matters to code alone. -/
theorem elsewhere (normal : Normal depth value) (notCode : ∀ block, value ≠ .code block)
    (other : UInt64) : Normal other value := by
  cases normal with
  | scalar isScalar => exact .scalar isScalar
  | bigInteger wide => exact .bigInteger wide
  | code => exact absurd rfl (notCode _)
  | array each => exact .array each
  | tuple each => exact .tuple each
  | method each body => exact .method each body

theorem child (normal : Normal depth value) (member : node ∈ value.children) :
    ∃ expected, Normal expected node := by
  cases normal with
  | scalar isScalar =>
    rw [isScalar.children_eq] at member
    cases member
  | bigInteger | code => cases member
  | array each | tuple each => exact ⟨0, each node member⟩
  | method each body =>
    rcases MethodRecord.mem_fields_iff.mp member with rfl | other
    · exact ⟨_, body⟩
    · exact ⟨0, each node other⟩

theorem within (inside : node.IsWithin value) (normal : Normal depth value) :
    ∃ expected, Normal expected node := by
  induction inside generalizing depth with
  | self => exact ⟨depth, normal⟩
  | child member _ inductionHypothesis =>
    obtain ⟨expected, childNormal⟩ := normal.child member
    exact inductionHypothesis childNormal

theorem wide_of_bigInteger {value : Int} (normal : Normal depth (.bigInteger value)) :
    value < -(2 ^ 63) ∨ 2 ^ 63 ≤ value := by
  cases normal with
  | scalar isScalar => cases isScalar
  | bigInteger wide => exact wide

theorem stackDepth_eq {block : CodeBlock} (normal : Normal depth (.code block)) :
    block.stackDepth = depth := by
  cases normal with
  | scalar isScalar => cases isScalar
  | code => rfl

theorem of_mem_items {items : List Value} (isListed : value = .array items ∨ value = .tuple items)
    (normal : Normal depth value) (member : node ∈ items) : Normal 0 node := by
  cases normal with
  | array each | tuple each =>
    rcases isListed with same | same <;> cases same
    exact each node member
  | scalar isScalar => rcases isListed with rfl | rfl <;> cases isScalar
  | bigInteger | code | method => rcases isListed with same | same <;> cases same

theorem of_method {record : Method} (normal : Normal depth (.method record)) :
    (∀ field ∈ record.otherFields, Normal 0 field) ∧
      Normal (announcedDepth record.stackSize) record.code := by
  cases normal with
  | scalar isScalar => cases isScalar
  | method each body => exact ⟨each, body⟩

end Normal

mutual

/-- The value with the one NaN in the place of every NaN, and otherwise as it is. -/
def oneNaN : Value → Value
  | float value => float value.canonical
  | array items => array (oneNaNAll items)
  | tuple items => tuple (oneNaNAll items)
  | method ⟨a₁, a₂, a₃, a₄, a₅, a₆, a₇, a₈, a₉, a₁₀, a₁₁, a₁₂, a₁₃, a₁₄⟩ =>
    method ⟨oneNaN a₁, oneNaN a₂, oneNaN a₃, oneNaN a₄, oneNaN a₅, oneNaN a₆, oneNaN a₇,
      oneNaN a₈, oneNaN a₉, oneNaN a₁₀, oneNaN a₁₁, oneNaN a₁₂, oneNaN a₁₃, oneNaN a₁₄⟩
  | value => value

/-- The values with the one NaN in the place of every NaN. -/
def oneNaNAll : List Value → List Value
  | [] => []
  | first :: rest => oneNaN first :: oneNaNAll rest

end

theorem oneNaNAll_eq_map (items : List Value) : oneNaNAll items = items.map oneNaN := by
  induction items with
  | nil => rfl
  | cons first rest inductionHypothesis => rw [oneNaNAll, inductionHypothesis, List.map_cons]

theorem oneNaN_method (record : Method) :
    (method record).oneNaN = method (record.map oneNaN) := rfl

theorem announcedDepth_oneNaN (value : Value) :
    announcedDepth value.oneNaN = announcedDepth value := by
  cases value <;> rfl

theorem oneNaN_ne_code {value : Value} (notCode : ∀ block, value ≠ code block)
    (block : CodeBlock) : value.oneNaN ≠ code block := by
  cases value with
  | code given => exact absurd rfl (notCode given)
  | _ => exact fun same => by cases same

theorem withAnnouncedDepth_of_ne_code {record : Method}
    (notCode : ∀ block, record.code ≠ code block) : record.withAnnouncedDepth = record := by
  unfold MethodRecord.withAnnouncedDepth
  split
  · rename_i block isCode
    exact absurd isCode (notCode block)
  · rfl

theorem code_withAnnouncedDepth {record : Method} {block : CodeBlock}
    (isCode : record.code = code block) :
    record.withAnnouncedDepth.code = code ⟨block.words, announcedDepth record.stackSize⟩ := by
  rw [MethodRecord.withAnnouncedDepth, isCode]

theorem otherFields_withAnnouncedDepth (record : Method) :
    record.withAnnouncedDepth.otherFields = record.otherFields := by
  unfold MethodRecord.withAnnouncedDepth
  split <;> rfl

theorem stackSize_withAnnouncedDepth (record : Method) :
    record.withAnnouncedDepth.stackSize = record.stackSize := by
  unfold MethodRecord.withAnnouncedDepth
  split <;> rfl

/-- The announced depth is the one that the code of a method in normal form has. -/
theorem withAnnouncedDepth_map_canonical {record : Method}
    (others : ∀ field ∈ record.otherFields, field.canonical = field.oneNaN)
    (body : (∀ block, record.code ≠ code block) → record.code.canonical = record.code.oneNaN)
    (normal : Normal (announcedDepth record.stackSize) record.code) :
    (record.map canonical).withAnnouncedDepth = record.map oneNaN := by
  obtain ⟨a₁, a₂, a₃, body₄, size, a₆, a₇, a₈, a₉, a₁₀, a₁₁, a₁₂, a₁₃, a₁₄⟩ := record
  simp only [MethodRecord.otherFields, List.forall_mem_cons] at others
  by_cases isCode : ∃ block, body₄ = code block
  · obtain ⟨⟨words, stackDepth⟩, rfl⟩ := isCode
    have announced : stackDepth = announcedDepth size := normal.stackDepth_eq
    subst announced
    simp only [MethodRecord.map, others]
    rw [MethodRecord.withAnnouncedDepth]
    simp only [canonical, oneNaN, CodeBlock.ofWords, announcedDepth_oneNaN]
  · have notCode : ∀ block, body₄ ≠ code block := fun block same => isCode ⟨block, same⟩
    have sameBody : body₄.canonical = body₄.oneNaN := body notCode
    simp only [MethodRecord.map, others, sameBody]
    exact withAnnouncedDepth_of_ne_code (oneNaN_ne_code notCode)

/-- Apart from NaN a normal form is its own canonical form. -/
theorem Normal.canonical_eq {value : Value} (normal : Normal 0 value) :
    value.canonical = value.oneNaN := by
  induction value using childInduction with
  | step value inductionHypothesis =>
    cases normal with
    | scalar isScalar => cases value <;> first | rfl | cases isScalar
    | @bigInteger _ value wide =>
      rw [canonical, Value.ofInt, if_neg (by omega)]
      rfl
    | code => rfl
    | array each =>
      rw [canonical_array, oneNaN, oneNaNAll_eq_map]
      exact congrArg Value.array
        (List.map_congr_left fun item member => inductionHypothesis item member (each item member))
    | tuple each =>
      rw [canonical_tuple, oneNaN, oneNaNAll_eq_map]
      exact congrArg Value.tuple
        (List.map_congr_left fun item member => inductionHypothesis item member (each item member))
    | @method _ record each body =>
      have canonicalFields : ∀ field ∈ record.fields, Normal 0 field →
          field.canonical = field.oneNaN := inductionHypothesis
      rw [canonical, oneNaN_method]
      refine congrArg Value.method (withAnnouncedDepth_map_canonical ?_ ?_ body)
      · intro field member
        exact canonicalFields field (MethodRecord.mem_fields_iff.mpr (.inr member))
          (each field member)
      · intro notCode
        exact canonicalFields record.code (MethodRecord.mem_fields_iff.mpr (.inl rfl))
          (body.elsewhere notCode 0)

/-- What is known of a value that is read where `depth` containers enclose it. -/
structure Found (limit depth : Nat) (value : Value) : Prop where
  normal : Normal 0 value
  sized : value.Sized
  shallow : depth + value.depth < limit

section Reading

variable {limit depth : Nat}

theorem Found.leaf {value : Value} (here : depth < limit) (normal : Normal 0 value)
    (extentFits : value.extent < 2 ^ 64) (noChildren : value.children = []) :
    Found limit depth value := by
  refine ⟨normal, .leaf extentFits noChildren, ?_⟩
  rw [depth_eq, noChildren]
  exact here

/-- A container lies one container less deep than the values that it holds. -/
theorem Found.container {value : Value} (here : depth < limit) (normal : Normal 0 value)
    (extentFits : value.extent < 2 ^ 64)
    (sized : ∀ child ∈ value.children, child.Sized)
    (shallow : ∀ child ∈ value.children, depth + 1 + child.depth < limit) :
    Found limit depth value := by
  refine ⟨normal, .node extentFits sized, ?_⟩
  by_contra deep
  have far : limit - depth ≤ value.depth := by omega
  obtain ⟨child, member, childDeep⟩ := exists_child_of_le_depth (by omega) far
  have inside := shallow child member
  omega

theorem Found.items {items : List Value} (here : depth < limit) (fits : items.length < 2 ^ 64)
    (each : ∀ item ∈ items, Found limit (depth + 1) item) :
    Found limit depth (.array items) ∧ Found limit depth (.tuple items) :=
  ⟨.container here (.array fun item member => (each item member).normal) fits
      (fun item member => (each item member).sized) fun item member => (each item member).shallow,
    .container here (.tuple fun item member => (each item member).normal) fits
      (fun item member => (each item member).sized) fun item member => (each item member).shallow⟩

/-- The code of a method keeps its words, and so its length, when it gets the announced depth. -/
theorem Found.method {record : Method} (here : depth < limit)
    (each : ∀ field ∈ record.fields, Found limit (depth + 1) field) :
    Found limit depth (.method record.restoreStackDepth) := by
  obtain ⟨body, others⟩ := MethodRecord.forall_mem_fields.mp each
  have unknown : ∀ block, record.code = .code block → block.stackDepth = 0 := by
    intro block isCode
    have normal := body.normal
    rw [isCode] at normal
    exact normal.stackDepth_eq
  rw [MethodRecord.restoreStackDepth_eq unknown]
  -- All that the code field still has to show is that it is as long and as shallow as before.
  suffices announced : Normal (announcedDepth record.stackSize) record.withAnnouncedDepth.code ∧
      record.withAnnouncedDepth.code.Sized ∧
      depth + 1 + record.withAnnouncedDepth.code.depth < limit by
    obtain ⟨normal, sized, shallow⟩ := announced
    have kept := otherFields_withAnnouncedDepth record
    refine .container here (.method ?_ ?_) (show 0 < 2 ^ 64 by decide) ?_ ?_
    · rw [kept]
      exact fun field member => (others field member).normal
    · rwa [stackSize_withAnnouncedDepth]
    · refine MethodRecord.forall_mem_fields.mpr ⟨sized, ?_⟩
      rw [kept]
      exact fun field member => (others field member).sized
    · refine MethodRecord.forall_mem_fields.mpr ⟨shallow, ?_⟩
      rw [kept]
      exact fun field member => (others field member).shallow
  by_cases isCode : ∃ block, record.code = .code block
  · obtain ⟨block, isCode⟩ := isCode
    rw [code_withAnnouncedDepth isCode]
    rw [isCode] at body
    exact ⟨.code, .leaf body.sized.extent_lt rfl, body.shallow⟩
  · have notCode : ∀ block, record.code ≠ .code block := fun block same => isCode ⟨block, same⟩
    rw [withAnnouncedDepth_of_ne_code notCode]
    exact ⟨body.normal.elsewhere notCode _, body.sized, body.shallow⟩

theorem extent_ofInt (value : Int) : (ofInt value).extent = 0 := by
  unfold ofInt
  split <;> rfl

theorem content_answersOnly {inner : Read Value} (here : depth < limit)
    (reading : inner.AnswersOnly (Found limit (depth + 1))) (tag : Tag) :
    (content inner tag).AnswersOnly (Found limit depth) := by
  have none : 0 < 2 ^ 64 := by decide
  cases tag with
  | true | false | nil =>
    exact Read.pure_answersOnly (.leaf here (.scalar trivial) none rfl)
  | integer | negativeInteger =>
    refine Read.bind_answersOnly (Read.any_answersOnly _) fun magnitude _ => ?_
    refine Read.pure_answersOnly (.leaf here (.ofInt _) ?_ (ofInt_leaf _).1)
    rw [extent_ofInt]
    exact none
  | float =>
    refine Read.bind_answersOnly (Read.any_answersOnly _) fun x _ => ?_
    exact Read.pure_answersOnly (.leaf here (.scalar trivial) none rfl)
  | string | symbol | sendSite =>
    refine Read.bind_answersOnly Read.countedBytes_answersOnly fun bytes fits => ?_
    exact Read.pure_answersOnly (.leaf here (.scalar trivial) fits rfl)
  | array =>
    refine Read.bind_answersOnly Read.count_answersOnly fun count fits => ?_
    refine Read.bind_answersOnly (Read.repeated_answersOnly reading count) ?_
    rintro items ⟨rfl, each⟩
    exact Read.pure_answersOnly (Found.items here fits each).1
  | tuple =>
    refine Read.bind_answersOnly Read.count_answersOnly fun count fits => ?_
    refine Read.bind_answersOnly (Read.repeated_answersOnly reading count) ?_
    rintro items ⟨rfl, each⟩
    exact Read.pure_answersOnly (Found.items here fits each).2
  | code =>
    refine Read.bind_answersOnly Read.count_answersOnly fun count fits => ?_
    refine Read.bind_answersOnly
      (Read.repeated_answersOnly (Read.any_answersOnly Varint.word) count) ?_
    rintro words ⟨rfl, -⟩
    exact Read.pure_answersOnly (.leaf here .code fits rfl)
  | method =>
    refine Read.bind_answersOnly (Read.any_answersOnly _) fun version _ => ?_
    split
    · exact Read.throw_answersOnly _
    · refine Read.bind_answersOnly (Read.record_answersOnly reading) fun record each => ?_
      exact Read.pure_answersOnly (.method here each)

theorem descend_answersOnly (limit depth : Nat) :
    (descend limit depth).AnswersOnly (Found limit depth) := by
  rw [descend]
  split
  · exact Read.throw_answersOnly _
  · rename_i shallow
    have here : depth < limit := Nat.not_le.mp shallow
    refine Read.bind_answersOnly (Read.any_answersOnly _) fun start _ => ?_
    refine Read.bind_answersOnly (Read.any_answersOnly _) fun letter _ => ?_
    cases Tag.ofByte? letter with
    | none => exact Read.throw_answersOnly _
    | some tag => exact content_answersOnly here (descend_answersOnly limit (depth + 1)) tag
termination_by limit - depth

end Reading

theorem found_of_unmarshal {limit : Nat} {bytes : List UInt8} {value : Value}
    (success : unmarshal limit bytes = .ok value) : Found limit 0 value := by
  unfold unmarshal at success
  split at success
  · cases success
  · rename_i found next readOk
    split at success
    · cases success
      rw [read_eq_descend] at readOk
      exact descend_answersOnly limit 0 _ _ _ readOk
    · cases success

/--
What is accepted is a normal form, however its bytes spell it. Fewer containers than the limit
enclose its nodes, its big integers do not fit into 64 bits, and the stack depth of code is zero,
except that the code of a method has the one that a stack size which is not negative announces. The
bytes of such a value give it back under the same limit, NaN aside, and these are the bytes of what
they give back.
-/
theorem unmarshal_normal_form {limit : Nat} {bytes : List UInt8} {value : Value}
    (success : unmarshal limit bytes = .ok value) :
    value.depth < limit ∧
    (∀ number, (bigInteger number).IsWithin value → number < -(2 ^ 63) ∨ 2 ^ 63 ≤ number) ∧
    (∀ block, value = code block → block.stackDepth = 0) ∧
    (∀ items, (array items).IsWithin value ∨ (tuple items).IsWithin value →
      ∀ block, code block ∈ items → block.stackDepth = 0) ∧
    (∀ record, (method record).IsWithin value →
      (∀ block, code block ∈ record.otherFields → block.stackDepth = 0) ∧
      ∀ block, record.code = code block → block.stackDepth = announcedDepth record.stackSize) ∧
    unmarshal limit value.marshal = .ok value.oneNaN ∧
    value.oneNaN.marshal = value.marshal := by
  obtain ⟨normal, sized, shallow⟩ := found_of_unmarshal success
  rw [Nat.zero_add] at shallow
  have again := unmarshal_marshal_append sized shallow []
  rw [List.append_nil, if_pos rfl, normal.canonical_eq] at again
  refine ⟨shallow, ?_, ?_, ?_, ?_, again, ?_⟩
  · intro number inside
    obtain ⟨_, nodeNormal⟩ := normal.within inside
    exact nodeNormal.wide_of_bigInteger
  · rintro block rfl
    exact normal.stackDepth_eq
  · intro items inside block member
    rcases inside with inArray | inTuple
    · obtain ⟨_, nodeNormal⟩ := normal.within inArray
      exact (nodeNormal.of_mem_items (.inl rfl) member).stackDepth_eq
    · obtain ⟨_, nodeNormal⟩ := normal.within inTuple
      exact (nodeNormal.of_mem_items (.inr rfl) member).stackDepth_eq
  · intro record inside
    obtain ⟨_, nodeNormal⟩ := normal.within inside
    obtain ⟨others, body⟩ := nodeNormal.of_method
    refine ⟨fun block member => (others _ member).stackDepth_eq, fun block isCode => ?_⟩
    rw [isCode] at body
    exact body.stackDepth_eq
  · rw [← normal.canonical_eq, marshal_canonical]

/--
The array has a count of two bytes, a zero with a minus sign, the least integer that is too big, and
a method whose stack size of three is the depth of its code.
-/
theorem unmarshal_normal_form_overlong :
    let bytes : List UInt8 := [65, 131, 0, 74, 0, 73, 128, 128, 128, 128, 128, 128, 128, 128, 128,
      1, 77, 1, 110, 110, 110, 105, 1, 12, 73, 3, 110, 110, 110, 110, 110, 110, 110, 110, 110]
    let record : Method := ⟨nil, nil, nil, code ⟨[12], 3⟩, integer 3, nil, nil, nil, nil, nil, nil,
      nil, nil, nil⟩
    let value := array [integer 0, bigInteger (2 ^ 63), method record]
    unmarshal 3 bytes = .ok value ∧ value.depth < 3 ∧
    (∀ number, (bigInteger number).IsWithin value → number < -(2 ^ 63) ∨ 2 ^ 63 ≤ number) ∧
    (∀ block, record.code = code block → block.stackDepth = announcedDepth record.stackSize) ∧
    unmarshal 3 value.marshal = .ok value := by
  intro bytes record value
  have recordSized : (method record).Sized := by
    refine .of_leaves (by decide) ?_
    simp only [record, children, MethodRecord.fields, List.forall_mem_cons, List.not_mem_nil,
      false_imp_iff, implies_true, and_true]
    decide
  have three : Varint.count.Accepts [131, 0] 3 := fun _ _ => rfl
  have zero : (descend 3 1).Accepts (Tag.negativeInteger.byte :: [0]) (.integer 0) :=
    tagged_accepts (by decide) fun _ _ => rfl
  have wideInteger : (descend 3 1).Accepts (marshalInt (2 ^ 63)) (bigInteger (2 ^ 63)) :=
    marshalInt_accepts (by decide) _
  have methodReads : (descend 3 1).Accepts (method record).marshal (method record) :=
    descend_accepts recordSized (by decide)
  have items : (Read.repeated (descend 3 1) 3).Accepts
      ((Tag.negativeInteger.byte :: [0]) ++ (marshalInt (2 ^ 63) ++
        ((method record).marshal ++ [] ++ []) ++ []))
      [.integer 0, bigInteger (2 ^ 63), method record] :=
    Read.bind_accepts zero (Read.bind_accepts
      (Read.bind_accepts wideInteger (Read.bind_accepts
        (Read.bind_accepts methodReads (Read.bind_accepts (Read.pure_accepts [])
          (Read.pure_accepts _))) (Read.pure_accepts _))) (Read.pure_accepts _))
  have whole : (descend 3 0).Accepts (Tag.array.byte :: ([131, 0] ++ _)) value :=
    tagged_accepts (by decide) (Read.bind_accepts three (Read.map_accepts array items))
  have spelled : bytes = Tag.array.byte :: ([131, 0] ++ ((Tag.negativeInteger.byte :: [0]) ++
      (marshalInt (2 ^ 63) ++ ((method record).marshal ++ [] ++ []) ++ []))) := by decide +kernel
  have success : unmarshal 3 bytes = .ok value := by
    have reading := whole 0 []
    rw [← spelled, List.append_nil] at reading
    rw [unmarshal, Cursor.ofBytes, read_eq_descend, reading]
    rfl
  have inside : (method record).IsWithin value := .child (.tail _ (.tail _ (.head _))) .self
  obtain ⟨shallow, wide, _, _, methods, again, _⟩ := unmarshal_normal_form success
  exact ⟨success, shallow, wide, (methods record inside).2, again⟩

end Value

end CompiledCode
