import CompiledCode.Proofs.Float.LineRoundTrip
import CompiledCode.Proofs.Value.Nesting
import CompiledCode.Value.Equality
import CompiledCode.Value.Unmarshal

/-!
Different values may have the same bytes. Each has a canonical form, which is what its bytes are
read back as, and a value and its canonical form are the same node by node.
-/

namespace CompiledCode

/-- A number is the same as the number that its line is read back as. -/
theorem Binary64.same_canonical (x : Binary64) : x.canonical.same x = true := by
  rw [canonical]
  split
  · rename_i notNumber
    have nanIsNaN : nan.isNaN = true := by decide
    rw [same, notNumber, nanIsNaN, Bool.and_self, Bool.true_or]
  · rw [same, beq_self_eq_true, Bool.or_true]

/-- The stack depth that a stack size announces. -/
def announcedDepth : Value → UInt64
  | .integer size => if 0 ≤ size then .ofNat size.toInt.toNat else 0
  | _ => 0

/-- The code of a method has the stack depth that the stack size of the method announces. -/
def MethodRecord.withAnnouncedDepth (record : Method) : Method :=
  match record.code with
  | .code block =>
    { record with code := .code { block with stackDepth := announcedDepth record.stackSize } }
  | _ => record

/-- Code without a depth of its own gets the one that the stack size announces. -/
theorem MethodRecord.restoreStackDepth_eq {record : Method}
    (unknown : ∀ block, record.code = .code block → block.stackDepth = 0) :
    record.restoreStackDepth = record.withAnnouncedDepth := by
  obtain ⟨a₁, a₂, a₃, code, size, a₆, a₇, a₈, a₉, a₁₀, a₁₁, a₁₂, a₁₃, a₁₄⟩ := record
  cases code with
  | code block =>
    -- Without a known stack size both sides leave the depth as it is, which is zero.
    obtain ⟨words, stackDepth⟩ := block
    have depthZero : stackDepth = 0 := unknown _ rfl
    subst depthZero
    cases size with
    | integer size =>
      simp only [restoreStackDepth, withAnnouncedDepth, announcedDepth]
      split <;> rfl
    | _ => rfl
  | _ => cases size <;> rfl

namespace Value

mutual

/-- The value that the bytes of a value are read back as. -/
def canonical : Value → Value
  | bigInteger value => ofInt value
  | float value => float value.canonical
  | array items => array (canonicalAll items)
  | tuple items => tuple (canonicalAll items)
  | code block => code (.ofWords block.words)
  | method ⟨a₁, a₂, a₃, a₄, a₅, a₆, a₇, a₈, a₉, a₁₀, a₁₁, a₁₂, a₁₃, a₁₄⟩ =>
    method (MethodRecord.withAnnouncedDepth
      ⟨canonical a₁, canonical a₂, canonical a₃, canonical a₄, canonical a₅, canonical a₆,
        canonical a₇, canonical a₈, canonical a₉, canonical a₁₀, canonical a₁₁, canonical a₁₂,
        canonical a₁₃, canonical a₁₄⟩)
  | value => value

/-- The values that the bytes of several values are read back as. -/
def canonicalAll : List Value → List Value
  | [] => []
  | first :: rest => canonical first :: canonicalAll rest

end

theorem canonicalAll_eq_map (items : List Value) : canonicalAll items = items.map canonical := by
  induction items with
  | nil => rfl
  | cons first rest inductionHypothesis => rw [canonicalAll, inductionHypothesis, List.map_cons]

theorem canonical_array (items : List Value) :
    (array items).canonical = array (items.map canonical) := by
  rw [canonical, canonicalAll_eq_map]

theorem canonical_tuple (items : List Value) :
    (tuple items).canonical = tuple (items.map canonical) := by
  rw [canonical, canonicalAll_eq_map]

theorem ofInt_ne_code (value : Int) (block : CodeBlock) : ofInt value ≠ code block := by
  unfold ofInt
  split <;> exact fun same => nomatch same

/-- Only the code of a method keeps a stack depth. -/
theorem stackDepth_of_canonical {value : Value} {block : CodeBlock}
    (isCode : value.canonical = code block) : block.stackDepth = 0 := by
  cases value with
  | code given =>
    cases isCode
    rfl
  | bigInteger value => exact absurd isCode (ofInt_ne_code value block)
  | _ => cases isCode

theorem canonical_method (record : Method) :
    (method record).canonical = method (record.map canonical).restoreStackDepth := by
  have unknown : ∀ block, (record.map canonical).code = .code block → block.stackDepth = 0 :=
    fun block isCode => stackDepth_of_canonical isCode
  rw [MethodRecord.restoreStackDepth_eq unknown]
  rfl

theorem same_ofInt (value : Int) : (ofInt value).same (bigInteger value) = .true := by
  unfold ofInt
  split
  · rename_i inRange
    have read : (Int64.ofInt value).toInt = value :=
      Int64.toInt_ofInt_of_le inRange.1 inRange.2
    rw [same, read, beq_self_eq_true]
  · rw [same, beq_self_eq_true]

theorem sameAll_map {items : List Value}
    (each : ∀ item ∈ items, item.canonical.same item = .true) :
    sameAll (items.map canonical) items = .true := by
  induction items with
  | nil => rfl
  | cons first rest inductionHypothesis =>
    rw [List.map_cons, sameAll, each first List.mem_cons_self, Bool.true_and]
    exact inductionHypothesis fun item member => each item (List.mem_cons_of_mem _ member)

/-- The depths of code blocks do not count when values are compared. -/
theorem same_withAnnouncedDepth (first second : Method) :
    (method first.withAnnouncedDepth).same (method second) =
      (method first).same (method second) := by
  obtain ⟨a₁, a₂, a₃, a₄, a₅, a₆, a₇, a₈, a₉, a₁₀, a₁₁, a₁₂, a₁₃, a₁₄⟩ := first
  cases a₄ with
  | code block =>
    rw [MethodRecord.withAnnouncedDepth, same, same]
    congr 11
    cases second.code <;> rfl
  | _ => rfl

theorem same_map_canonical {record : Method}
    (each : ∀ field ∈ record.fields, field.canonical.same field = .true) :
    (method (record.map canonical)).same (method record) = .true := by
  obtain ⟨a₁, a₂, a₃, a₄, a₅, a₆, a₇, a₈, a₉, a₁₀, a₁₁, a₁₂, a₁₃, a₁₄⟩ := record
  simp only [MethodRecord.fields, List.forall_mem_cons] at each
  simp only [MethodRecord.map, same, each, Bool.and_self]

/-- A value is the same as the value that is read back. -/
theorem same_canonical (value : Value) : value.canonical.same value = .true := by
  induction value using childInduction with
  | step value inductionHypothesis =>
    cases value with
    | nil | true | false => rfl
    | integer value => exact beq_self_eq_true value
    | bigInteger value => exact same_ofInt value
    | float value => exact value.same_canonical
    | string bytes | symbol bytes | sendSite bytes => exact beq_self_eq_true bytes
    | array items =>
      rw [canonical_array, same]
      exact sameAll_map inductionHypothesis
    | tuple items =>
      rw [canonical_tuple, same]
      exact sameAll_map inductionHypothesis
    | code block => exact decide_eq_true rfl
    | method record =>
      rw [canonical, same_withAnnouncedDepth]
      exact same_map_canonical inductionHypothesis

end Value

end CompiledCode
