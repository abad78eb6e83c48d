import CompiledCode.Proofs.Value.Composition
import CompiledCode.Proofs.Value.Nesting

/-!
What recursive descent shows at once holds of the loop as well: it moves forward over its bytes, an
array or a tuple has as many values as its count announces, and it fails for a few reasons only.
-/

namespace CompiledCode

namespace Read

theorem repeated_eq_record {α : Type} (item : Read α) :
    repeated item 14 = (do
      let fields ← record item
      return fields.fields) := by
  simp only [repeated, record, bind_assoc, pure_bind]
  rfl

theorem repeated_of_record {α : Type} {item : Read α} {start next : Cursor}
    {fields : MethodRecord α} (success : record item start = .ok fields next) :
    repeated item 14 start = .ok fields.fields next := by
  rw [repeated_eq_record]
  exact bind_eq_ok.mpr ⟨fields, next, success, rfl⟩

end Read

/-- The letter of a known tag is the byte of that tag. -/
theorem Tag.ofByte?_eq_some {letter : UInt8} {tag : Tag} (known : ofByte? letter = some tag) :
    letter = tag.byte := by
  have found := List.find?_some known
  exact (beq_iff_eq.mp found).symm

namespace Value

/-- The values of an array or of a tuple, with the tag in front of them. -/
def listed : Value → Option (Tag × List Value)
  | .array items => some (.array, items)
  | .tuple items => some (.tuple, items)
  | _ => none

/-- A tag and a count stand at the start, and after them as many values as the count says. -/
def Declares (inner : Read Value) (tag : Tag) (items : List Value) (start next : Cursor) : Prop :=
  ∃ afterTag afterCount count,
    Read.byte start = .ok tag.byte afterTag ∧
    Varint.count afterTag = .ok count afterCount ∧
    Read.repeated inner count afterCount = .ok items next ∧
    items.length = count

theorem ofInt_leaf (value : Int) : (ofInt value).children = [] ∧ (ofInt value).listed = none := by
  unfold ofInt
  split <;> exact ⟨rfl, rfl⟩

section Inversion

variable {inner : Read Value} {tag : Tag} {value : Value} {start next : Cursor}

/-- What follows a tag is a leaf, a list of values after their number, or the fields of a method. -/
theorem of_content_ok (success : content inner tag start = .ok value next) :
    (value.children = [] ∧ value.listed = none) ∨
    (∃ items count middle, value.listed = some (tag, items) ∧ value.children = items ∧
      Varint.count start = .ok count middle ∧ Read.repeated inner count middle = .ok items next) ∨
    ∃ fields middle, value = .method fields.restoreStackDepth ∧
      start.Reaches middle ∧ Read.record inner middle = .ok fields next := by
  cases tag with
  | true | false | nil =>
    cases success
    exact .inl ⟨rfl, rfl⟩
  | integer | negativeInteger =>
    obtain ⟨magnitude, middle, _, built⟩ := Read.bind_eq_ok.mp success
    obtain ⟨rfl, rfl⟩ := Read.pure_eq_ok.mp built
    exact .inl (ofInt_leaf _)
  | float | string | symbol | sendSite =>
    obtain ⟨payload, middle, _, built⟩ := Read.bind_eq_ok.mp success
    obtain ⟨rfl, rfl⟩ := Read.pure_eq_ok.mp built
    exact .inl ⟨rfl, rfl⟩
  | code =>
    obtain ⟨count, middle, _, rest⟩ := Read.bind_eq_ok.mp success
    obtain ⟨words, last, _, built⟩ := Read.bind_eq_ok.mp rest
    obtain ⟨rfl, rfl⟩ := Read.pure_eq_ok.mp built
    exact .inl ⟨rfl, rfl⟩
  | array | tuple =>
    obtain ⟨count, middle, counted, rest⟩ := Read.bind_eq_ok.mp success
    obtain ⟨items, last, itemsRead, built⟩ := Read.bind_eq_ok.mp rest
    obtain ⟨rfl, rfl⟩ := Read.pure_eq_ok.mp built
    exact .inr (.inl ⟨items, count, middle, rfl, rfl, counted, itemsRead⟩)
  | method =>
    obtain ⟨version, middle, versionRead, rest⟩ := Read.bind_eq_ok.mp success
    split at rest
    · cases rest
    · obtain ⟨fields, last, fieldsRead, built⟩ := Read.bind_eq_ok.mp rest
      obtain ⟨rfl, rfl⟩ := Read.pure_eq_ok.mp built
      exact .inr (.inr ⟨fields, middle, rfl, Varint.word_movesForward.of_ok versionRead,
        fieldsRead⟩)

/-- A value is read from a known tag and what follows it. -/
theorem of_descend_ok {limit depth : Nat} (success : descend limit depth start = .ok value next) :
    ∃ tag afterTag, Read.byte start = .ok tag.byte afterTag ∧
      content (descend limit (depth + 1)) tag afterTag = .ok value next := by
  rw [descend] at success
  split at success
  · cases success
  · obtain ⟨_, _, atStart, tagged⟩ := Read.bind_eq_ok.mp success
    cases atStart
    obtain ⟨letter, afterTag, letterRead, rest⟩ := Read.bind_eq_ok.mp tagged
    cases known : Tag.ofByte? letter with
    | none =>
      rw [known] at rest
      cases rest
    | some tag =>
      rw [known] at rest
      rw [Tag.ofByte?_eq_some known] at letterRead
      exact ⟨tag, afterTag, letterRead, rest⟩

theorem descend_listed {limit depth : Nat} {name : Tag} {items : List Value}
    (success : descend limit depth start = .ok value next)
    (isListed : value.listed = some (name, items)) :
    Declares (descend limit (depth + 1)) name items start next := by
  obtain ⟨tag, afterTag, tagRead, contentRead⟩ := of_descend_ok success
  rcases of_content_ok contentRead with ⟨_, notListed⟩ |
    ⟨values, count, middle, valuesListed, _, counted, valuesRead⟩ | ⟨fields, _, rfl, _, _⟩
  · rw [notListed] at isListed
    cases isListed
  · rw [valuesListed] at isListed
    cases isListed
    exact ⟨afterTag, middle, count, tagRead, counted, valuesRead, Read.length_repeated valuesRead⟩
  · cases isListed

/-- The fields of a method with its stack depth restored are the ones it had, apart from its code. -/
theorem mem_fields_restoreStackDepth {record : Method} {field : Value}
    (member : field ∈ record.restoreStackDepth.fields) :
    field ∈ record.fields ∨ ∃ block, field = .code block := by
  obtain ⟨a₁, a₂, a₃, code, size, a₆, a₇, a₈, a₉, a₁₀, a₁₁, a₁₂, a₁₃, a₁₄⟩ := record
  unfold MethodRecord.restoreStackDepth at member
  split at member
  · rename_i block sizeIs codeIs
    split at member
    · simp only [MethodRecord.fields, List.mem_cons] at member ⊢
      rcases member with rfl | rfl | rfl | rfl | later
      · exact .inl (.inl rfl)
      · exact .inl (.inr (.inl rfl))
      · exact .inl (.inr (.inr (.inl rfl)))
      · exact .inr ⟨_, rfl⟩
      · exact .inl (.inr (.inr (.inr (.inr later))))
    · exact .inl member
  · exact .inl member

/-- The values that a value holds are read one container further inside, within its bytes. -/
theorem descend_children {limit depth : Nat} {child : Value}
    (success : descend limit depth start = .ok value next) (member : child ∈ value.children) :
    (∃ first last, start.Reaches first ∧ descend limit (depth + 1) first = .ok child last ∧
      last.Reaches next) ∨ ∃ block, child = .code block := by
  obtain ⟨tag, afterTag, tagRead, contentRead⟩ := of_descend_ok success
  have toTag := Read.byte_movesForward.of_ok tagRead
  have moves := Read.movesForward_passes.descend limit (depth + 1)
  rcases of_content_ok contentRead with ⟨noChildren, _⟩ | ⟨items, _, _, _, rfl, counted, itemsRead⟩ |
    ⟨fields, middle, rfl, toFields, fieldsRead⟩
  · rw [noChildren] at member
    cases member
  · obtain ⟨first, last, toFirst, childRead, toNext⟩ := Read.of_mem_repeated moves itemsRead member
    have toItems := Read.movesForward_passes.count.of_ok counted
    exact .inl ⟨first, last, (toTag.trans toItems).trans toFirst, childRead, toNext⟩
  · rcases mem_fields_restoreStackDepth member with field | isCode
    · obtain ⟨first, last, toFirst, childRead, toNext⟩ :=
        Read.of_mem_repeated moves (Read.repeated_of_record fieldsRead) field
      exact .inl ⟨first, last, (toTag.trans toFields).trans toFirst, childRead, toNext⟩
    · exact .inr isCode

/-- Every list inside a value that is read declares its values, within the bytes of the value. -/
theorem descend_within {limit depth : Nat} {node : Value} {name : Tag} {items : List Value}
    (success : descend limit depth start = .ok value next) (within : node.IsWithin value)
    (isListed : node.listed = some (name, items)) :
    ∃ inside first last, start.Reaches first ∧
      Declares (descend limit inside) name items first last ∧ last.Reaches next := by
  induction within generalizing depth start next with
  | self => exact ⟨_, start, next, .refl _, descend_listed success isListed, .refl _⟩
  | child member deeper inductionHypothesis =>
    rcases descend_children success member with ⟨first, last, toFirst, childRead, toNext⟩ |
      ⟨block, rfl⟩
    · obtain ⟨inside, here, stop, toHere, declares, toLast⟩ := inductionHypothesis childRead
      exact ⟨inside, here, stop, toFirst.trans toHere, declares, toLast.trans toNext⟩
    · -- Only code is put in place of what was read, and code holds no list.
      cases deeper with
      | self => cases isListed
      | child inCode _ => cases inCode

end Inversion

/--
The loop over open containers is the recursive descent, on any bytes and from any offset, with the
same failures at the same places. An array or a tuple has the values that its count announces, and
no method is ever closed over a wrong number of fields.
-/
theorem read_refines_descent (limit : Nat) :
    (∀ cursor, read limit cursor = descend limit 0 cursor) ∧
    (∀ cursor next value, read limit cursor = .ok value next →
      ∀ (node : Value) (tag : Tag) (items : List Value), node.IsWithin value →
        node.listed = some (tag, items) →
        ∃ depth first last, cursor.Reaches first ∧
          Declares (descend limit depth) tag items first last ∧ last.Reaches next) ∧
    (∀ cursor next found, read limit cursor ≠ .error (.recordArity found) next) ∧
    (∀ bytes found, unmarshal limit bytes ≠ .error (.recordArity found)) := by
  have arity : ∀ cursor next found, read limit cursor ≠ .error (.recordArity found) next := by
    intro cursor next found failed
    rw [read_eq_descend] at failed
    exact Read.failsOnlyWith_passes.descend limit 0 _ _ _ failed
  refine ⟨fun cursor => by rw [read_eq_descend], ?_, arity, ?_⟩
  · intro cursor next value success node tag items within isListed
    rw [read_eq_descend] at success
    exact descend_within success within isListed
  · intro bytes found failed
    unfold unmarshal at failed
    split at failed
    · rename_i failure next readFailed
      cases failed
      exact arity _ _ _ readFailed
    · split at failed <;> cases failed

/-- The tuple inside this array announces the two values that it holds. -/
theorem read_refines_descent_nested :
    read 3 ⟨0, [65, 1, 112, 2, 116, 110]⟩ = .ok (.array [.tuple [.true, .nil]]) ⟨6, []⟩ ∧
    ∃ depth first last, Cursor.Reaches ⟨0, [65, 1, 112, 2, 116, 110]⟩ first ∧
      Declares (descend 3 depth) .tuple [.true, .nil] first last ∧ last.Reaches ⟨6, []⟩ := by
  have success : read 3 ⟨0, [65, 1, 112, 2, 116, 110]⟩ =
      .ok (.array [.tuple [.true, .nil]]) ⟨6, []⟩ := by cbv
  have within : IsWithin (.tuple [.true, .nil]) (.array [.tuple [.true, .nil]]) :=
    .child (List.mem_singleton.mpr rfl) .self
  exact ⟨success, (read_refines_descent 3).2.1 _ _ _ success _ _ _ within rfl⟩

end Value

end CompiledCode
