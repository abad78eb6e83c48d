import CompiledCode.Value.Marshal

/-!
A value is a tree of nodes. What is proved of all values is proved of a value from the values that
it holds, and its depth counts the containers around its innermost node.
-/

namespace CompiledCode

namespace MethodRecord

variable {α β : Type}

def map (f : α → β) (record : MethodRecord α) : MethodRecord β where
  ivars := f record.ivars
  primitive := f record.primitive
  name := f record.name
  code := f record.code
  stackSize := f record.stackSize
  localCount := f record.localCount
  requiredArguments := f record.requiredArguments
  totalArguments := f record.totalArguments
  splat := f record.splat
  literals := f record.literals
  handlers := f record.handlers
  lines := f record.lines
  file := f record.file
  localNames := f record.localNames

end MethodRecord

namespace Value

/-- A value that is held by another is the smaller of the two. -/
theorem sizeOf_lt_of_mem_children {child value : Value} (member : child ∈ value.children) :
    sizeOf child < sizeOf value := by
  cases value with
  | array items =>
    have smaller : sizeOf child < sizeOf items := List.sizeOf_lt_of_mem member
    rw [array.sizeOf_spec]
    omega
  | tuple items =>
    have smaller : sizeOf child < sizeOf items := List.sizeOf_lt_of_mem member
    rw [tuple.sizeOf_spec]
    omega
  | method record =>
    obtain ⟨a₁, a₂, a₃, a₄, a₅, a₆, a₇, a₈, a₉, a₁₀, a₁₁, a₁₂, a₁₃, a₁₄⟩ := record
    simp only [children, MethodRecord.fields, List.mem_cons, List.not_mem_nil, or_false] at member
    rw [method.sizeOf_spec, MethodRecord.mk.sizeOf_spec]
    rcases member with rfl | rfl | rfl | rfl | rfl | rfl | rfl | rfl | rfl | rfl | rfl | rfl | rfl
      | rfl <;> omega
  | _ => cases member

/-- A property holds of all values if it passes from the values that one holds to that one. -/
@[elab_as_elim]
theorem childInduction {motive : Value → Prop}
    (step : ∀ value, (∀ child ∈ value.children, motive child) → motive value) (value : Value) :
    motive value :=
  step value fun child _ => childInduction step child
termination_by sizeOf value
decreasing_by
  rename_i member
  exact sizeOf_lt_of_mem_children member

/-- A value is a node of itself and of every value that holds it, however deep. -/
inductive IsWithin : Value → Value → Prop where
  | self {value : Value} : IsWithin value value
  | child {node child value : Value} (member : child ∈ value.children)
    (deeper : IsWithin node child) : IsWithin node value

/-- One more than the greatest of the depths, and zero if there are none. -/
def enclosing (depths : List Nat) : Nat := depths.foldr (fun depth rest => max (depth + 1) rest) 0

theorem lt_enclosing {depths : List Nat} {depth : Nat} (member : depth ∈ depths) :
    depth < enclosing depths := by
  induction depths with
  | nil => cases member
  | cons first rest inductionHypothesis =>
    rw [enclosing, List.foldr_cons, ← enclosing]
    rcases List.mem_cons.mp member with rfl | later
    · exact Nat.lt_of_lt_of_le (Nat.lt_succ_self _) (Nat.le_max_left _ _)
    · exact Nat.lt_of_lt_of_le (inductionHypothesis later) (Nat.le_max_right _ _)

/-- The greatest depth is the depth of one of the parts. -/
theorem exists_of_le_enclosing {depths : List Nat} {bound : Nat} (positive : 0 < bound)
    (reached : bound ≤ enclosing depths) : ∃ depth ∈ depths, bound ≤ depth + 1 := by
  induction depths with
  | nil => exact absurd (Nat.lt_of_lt_of_le positive reached) (Nat.lt_irrefl 0)
  | cons first rest inductionHypothesis =>
    rw [enclosing, List.foldr_cons, ← enclosing] at reached
    have either : bound ≤ first + 1 ∨ bound ≤ enclosing rest := by omega
    rcases either with atFirst | later
    · exact ⟨first, List.mem_cons_self, atFirst⟩
    · obtain ⟨depth, member, deep⟩ := inductionHypothesis later
      exact ⟨depth, List.mem_cons_of_mem _ member, deep⟩

mutual

/-- The greatest number of containers around a node of the value. -/
def depth : Value → Nat
  | array items => depthWithin items
  | tuple items => depthWithin items
  | method ⟨a₁, a₂, a₃, a₄, a₅, a₆, a₇, a₈, a₉, a₁₀, a₁₁, a₁₂, a₁₃, a₁₄⟩ =>
    enclosing [depth a₁, depth a₂, depth a₃, depth a₄, depth a₅, depth a₆, depth a₇, depth a₈,
      depth a₉, depth a₁₀, depth a₁₁, depth a₁₂, depth a₁₃, depth a₁₄]
  | _ => 0

/-- The depth of a container of the values. -/
def depthWithin : List Value → Nat
  | [] => 0
  | first :: rest => max (depth first + 1) (depthWithin rest)

end

theorem depthWithin_eq (items : List Value) : depthWithin items = enclosing (items.map depth) := by
  induction items with
  | nil => rfl
  | cons first rest inductionHypothesis =>
    rw [depthWithin, inductionHypothesis]
    rfl

theorem depth_eq (value : Value) : value.depth = enclosing (value.children.map depth) := by
  cases value with
  | array items | tuple items => exact depthWithin_eq items
  | _ => rfl

example : (array [tuple [nil, array []], nil]).depth = 2 := by decide

theorem depth_lt_of_mem_children {child value : Value} (member : child ∈ value.children) :
    child.depth < value.depth := by
  rw [depth_eq value]
  exact lt_enclosing (List.mem_map_of_mem member)

/-- Some held value lies as deep as the whole does, less the container around it. -/
theorem exists_child_of_le_depth {value : Value} {bound : Nat} (positive : 0 < bound)
    (reached : bound ≤ value.depth) : ∃ child ∈ value.children, bound ≤ child.depth + 1 := by
  rw [depth_eq value] at reached
  obtain ⟨depth, member, deep⟩ := exists_of_le_enclosing positive reached
  obtain ⟨child, childMember, rfl⟩ := List.mem_map.mp member
  exact ⟨child, childMember, deep⟩

/-- The number that is written as the length or the count of a node. -/
def extent : Value → Nat
  | string bytes => bytes.length
  | symbol name | sendSite name => name.length
  | array items | tuple items => items.length
  | code block => block.words.length
  | _ => 0

/-- Every length and every count in the value is a word of 64 bits. -/
inductive Sized : Value → Prop where
  | node {value : Value} (extentFits : value.extent < 2 ^ 64)
    (childrenSized : ∀ child ∈ value.children, Sized child) : Sized value

theorem Sized.leaf {value : Value} (extentFits : value.extent < 2 ^ 64)
    (noChildren : value.children = []) : value.Sized := by
  refine .node extentFits fun child member => ?_
  rw [noChildren] at member
  cases member

/-- Leaves one level down are all that has to be looked at. -/
theorem Sized.of_leaves {value : Value} (extentFits : value.extent < 2 ^ 64)
    (leaves : ∀ child ∈ value.children, child.extent < 2 ^ 64 ∧ child.children = []) :
    value.Sized :=
  .node extentFits fun child member => .leaf (leaves child member).1 (leaves child member).2

theorem Sized.extent_lt {value : Value} (sized : value.Sized) : value.extent < 2 ^ 64 := by
  cases sized with
  | node extentFits _ => exact extentFits

theorem Sized.child {child value : Value} (sized : value.Sized) (member : child ∈ value.children) :
    child.Sized := by
  cases sized with
  | node _ childrenSized => exact childrenSized child member

end Value

end CompiledCode
