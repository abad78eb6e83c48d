import CompiledCode.Proofs.Bytes.Consumption
import CompiledCode.Proofs.Value.Descent
import CompiledCode.Proofs.Value.Nesting

/-!
What a value is worth: its nodes, the bytes of its texts and the words of its code. Every node is read
for at least as many bytes as it is worth on its own, and so a value is read for at least as many
bytes as all of it is worth.
-/

namespace CompiledCode

namespace Value

mutual

/-- The value and all that it holds, each in front of what it holds itself. -/
def nodes : Value → List Value
  | array items => array items :: nodesOf items
  | tuple items => tuple items :: nodesOf items
  | method ⟨a₁, a₂, a₃, a₄, a₅, a₆, a₇, a₈, a₉, a₁₀, a₁₁, a₁₂, a₁₃, a₁₄⟩ =>
    method ⟨a₁, a₂, a₃, a₄, a₅, a₆, a₇, a₈, a₉, a₁₀, a₁₁, a₁₂, a₁₃, a₁₄⟩ ::
      [nodes a₁, nodes a₂, nodes a₃, nodes a₄, nodes a₅, nodes a₆, nodes a₇, nodes a₈, nodes a₉,
        nodes a₁₀, nodes a₁₁, nodes a₁₂, nodes a₁₃, nodes a₁₄].flatten
  | value => [value]

/-- The nodes of the values one after another. -/
def nodesOf : List Value → List Value
  | [] => []
  | first :: rest => nodes first ++ nodesOf rest

end

theorem nodesOf_eq (items : List Value) : nodesOf items = items.flatMap nodes := by
  induction items with
  | nil => rfl
  | cons first rest inductionHypothesis =>
    rw [nodesOf, inductionHypothesis, List.flatMap_cons]

theorem nodes_eq (value : Value) : value.nodes = value :: value.children.flatMap nodes := by
  cases value with
  | array items => rw [nodes, nodesOf_eq, children]
  | tuple items => rw [nodes, nodesOf_eq, children]
  | _ => rfl

/-- The number of bytes of a string, of a symbol or of the name of a send site. -/
def textLength : Value → Nat
  | string bytes => bytes.length
  | symbol name | sendSite name => name.length
  | _ => 0

/-- The number of words of a sequence of instructions. -/
def wordCount : Value → Nat
  | code block => block.words.length
  | _ => 0

/-- One for every node, for every byte of a text and for every word of code. -/
def worth (value : Value) : Nat :=
  value.nodes.length + (value.nodes.map textLength).sum + (value.nodes.map wordCount).sum

/-- A node is worth one and what it holds of its own. -/
theorem worth_eq (value : Value) :
    value.worth = 1 + value.textLength + value.wordCount + (value.children.map worth).sum := by
  have parts (items : List Value) : (items.map worth).sum = (items.flatMap nodes).length +
      ((items.flatMap nodes).map textLength).sum + ((items.flatMap nodes).map wordCount).sum := by
    induction items with
    | nil => rfl
    | cons first rest inductionHypothesis =>
      rw [List.map_cons, List.sum_cons, inductionHypothesis, worth, List.flatMap_cons,
        List.length_append, List.map_append, List.map_append, List.sum_append, List.sum_append]
      omega
  rw [parts, worth, nodes_eq, List.length_cons, List.map_cons, List.map_cons, List.sum_cons,
    List.sum_cons]
  omega

theorem worth_ofInt (number : Int) : (ofInt number).worth = 1 := by
  unfold ofInt
  split <;> rfl

/-- The stack depth of code is worth nothing. -/
theorem worth_restoreStackDepth (record : Method) :
    record.restoreStackDepth.fields.map worth = record.fields.map worth := by
  unfold MethodRecord.restoreStackDepth
  split
  · rename_i size block sizeIs codeIs
    split
    · have same : (code { block with stackDepth := .ofNat size.toInt.toNat }).worth =
          record.code.worth := by rw [codeIs]; rfl
      simp only [MethodRecord.fields, List.map_cons, same]
    · rfl
  · rfl

end Value

/-- What a leaf is worth, and the tag and the count of a container. -/
def Node.worth : Node → Nat
  | .leaf value => value.worth
  | .open _ _ => 2

namespace Read

theorem countedBytes_paysFor : countedBytes.PaysFor fun data => data.length + 1 := by
  refine bind_paysFor Varint.count_paysFor fun count => ?_
  exact (bytes_paysFor count).of_le fun data => Nat.le_refl _

theorem countedWords_paysFor :
    (Varint.count >>= words).PaysFor fun words => words.length + 1 := by
  refine bind_paysFor Varint.count_paysFor fun count => ?_
  rw [words_eq_repeated]
  refine (repeated_paysFor Varint.word_paysFor count).of_le fun words => ?_
  rw [List.map_const', List.sum_replicate_nat, Nat.mul_one, Nat.add_sub_cancel]

theorem float_paysFor : float.PaysFor fun _ => 0 := by
  intro cursor next x success
  rw [Nat.zero_add]
  exact float_advances cursor next x success

/-- What follows a tag pays for all of the node but the tag. -/
theorem payload_paysFor (tag : Tag) : (payload tag).PaysFor fun node => node.worth - 1 := by
  cases tag with
  | true | false | nil => exact pure_paysFor rfl
  | integer | negativeInteger =>
    refine map_paysFor (Varint.natural_paysFor.of_le fun number => ?_)
    rw [Node.worth, Value.worth_ofInt]
    exact Nat.zero_le _
  | float => exact map_paysFor float_paysFor
  | string | symbol | sendSite =>
    refine map_paysFor (countedBytes_paysFor.of_le fun data => ?_)
    rw [Node.worth, Value.worth_eq]
    simp [Value.textLength, Value.wordCount, Value.children]
  | array | tuple => exact map_paysFor Varint.count_paysFor
  | code =>
    refine map_paysFor (countedWords_paysFor.of_le fun words => ?_)
    rw [Node.worth, Value.worth_eq]
    simp [Value.textLength, Value.wordCount, Value.children, CodeBlock.ofWords]
  | method =>
    refine bind_paysFor Varint.word_paysFor fun version => ?_
    split
    · exact pure_paysFor rfl
    · exact throw_paysFor _

/-- Every node is read for at least the bytes that it is worth. -/
theorem node_paysFor : node.PaysFor Node.worth := by
  rw [node_eq]
  have free : offset.PaysFor fun _ => 0 := by
    intro cursor next start success
    cases success
    exact (Nat.zero_add _).le
  refine bind_paysFor free fun start => bind_paysFor byte_paysFor fun letter => ?_
  unfold tagged
  split
  · exact payload_paysFor _
  · exact throw_paysFor _

end Read

namespace Value

/-- A container is worth one more than what it holds. -/
theorem worth_close {container : Container} {items : List Value} {value : Value}
    (closed : container.close items = .ok value) : value.worth = 1 + (items.map worth).sum := by
  cases container with
  | array | tuple =>
    cases closed
    rw [worth_eq]
    rfl
  | method =>
    rw [Container.close] at closed
    split at closed
    · rename_i record isRecord
      cases closed
      have fields : items = record.fields := by
        unfold MethodRecord.ofFields? at isRecord
        split at isRecord
        · cases isRecord
          rfl
        · cases isRecord
      rw [worth_eq, children, worth_restoreStackDepth, fields]
      rfl
    · cases closed

/-- Every value is read for at least the bytes that it is worth, at any depth. -/
theorem descend_paysFor (limit depth : Nat) : (descend limit depth).PaysFor worth := by
  rw [descend_eq]
  split
  · exact Read.throw_paysFor _
  · refine Read.bind_paysFor Read.node_paysFor fun node => ?_
    cases node with
    | leaf value => exact Read.pure_paysFor (Nat.sub_self _)
    | «open» container count =>
      have inner := Read.repeated_paysFor (descend_paysFor limit (depth + 1)) count
      refine Read.bind_paysFor inner fun items => ?_
      cases closed : container.close items with
      | error failure => exact Read.throw_paysFor failure
      | ok value =>
        apply Read.pure_paysFor
        rw [worth_close closed, Node.worth]
        omega
termination_by limit - depth

end Value

end CompiledCode
