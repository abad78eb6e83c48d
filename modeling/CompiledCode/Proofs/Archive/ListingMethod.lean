import CompiledCode.CommandLine.Compilation
import CompiledCode.Proofs.Archive.FileRoundTrip
import CompiledCode.Proofs.Listing.Extent
import CompiledCode.Proofs.Storage.Siblings

/-!
The method that a listing is compiled to comes back from its file as it was, with the stack depth of
its code. Its parts are no larger than the listing and the path, and its containers are no deeper
than two.
-/

namespace CompiledCode

namespace CodeBlock

theorem stackDepth_lt_of_encode {instructions : List Instruction} {code : CodeBlock}
    (success : encode instructions = .ok code) : code.stackDepth.toNat < 2 ^ 63 := by
  obtain ⟨encodable, _, isGreatest⟩ := measures_of_encode success
  have small := (encodable.inRange _ isGreatest.1).2
  omega

end CodeBlock

namespace Value

/-- A value is one deeper than the deepest of the values that it holds. -/
theorem depth_le {value : Value} {bound : Nat}
    (each : ∀ child ∈ value.children, child.depth ≤ bound) : value.depth ≤ bound + 1 := by
  by_contra shallow
  have deep : bound + 2 ≤ value.depth := by omega
  obtain ⟨child, member, childDeep⟩ := exists_child_of_le_depth (by omega) deep
  have childShallow := each child member
  omega

theorem depth_of_leaf {value : Value} (noChildren : value.children = []) : value.depth = 0 := by
  rw [depth_eq, noChildren]
  rfl

end Value

namespace Compilation

open Value

variable {input : String} {assembly : Listing.Assembly}

theorem extent_literal (literal : Listing.Literal) :
    literal.value.extent = literal.bytes.length ∧ literal.value.children = [] ∧
      literal.value.canonical = literal.value := by
  cases literal <;> exact ⟨rfl, rfl, rfl⟩

theorem sized_method {source : String} (assembled : Listing.assemble source = .ok assembly)
    (fits : (Text.Utf8.encode source).length < 2 ^ 64)
    (pathFits : (Text.Utf8.encode input).length < 2 ^ 64) :
    (Value.method (method input assembly)).Sized := by
  obtain ⟨wordCount, literalCount, each⟩ := Listing.extent_of_assemble assembled
  have stemFits := Text.Utf8.length_encode_le (Path.stem_sublist input)
  have none : 0 < 2 ^ 64 := by decide
  have literals : (tuple (assembly.literals.map (·.value))).Sized := by
    refine .of_leaves ?_ ?_
    · change (assembly.literals.map _).length < _
      rw [List.length_map]
      omega
    · intro child member
      obtain ⟨literal, known, rfl⟩ := List.mem_map.mp member
      obtain ⟨extentEq, leaf, _⟩ := extent_literal literal
      have short := each literal known
      exact ⟨by omega, leaf⟩
  have name : (Value.symbol (Text.Utf8.encode (Path.stem input))).Sized :=
    .leaf (show (Text.Utf8.encode (Path.stem input)).length < 2 ^ 64 by omega) rfl
  have file : (Value.symbol (Text.Utf8.encode input)).Sized := .leaf pathFits rfl
  have code : (Value.code assembly.code).Sized :=
    .leaf (show assembly.code.words.length < 2 ^ 64 by omega) rfl
  have nil : Value.nil.Sized := .leaf none rfl
  have number : ∀ n, (integer n).Sized := fun _ => .leaf none rfl
  have empty : (tuple []).Sized := .leaf none rfl
  refine .node none ?_
  simp only [method, MethodRecord.ofCode, MethodRecord.withLiterals, MethodRecord.withFile,
    children, MethodRecord.fields, List.forall_mem_cons, List.not_mem_nil, false_imp_iff,
    implies_true, and_true]
  exact ⟨nil, nil, name, code, number _, number 0, number 0, number 0, nil, literals, empty, empty,
    file, nil⟩

theorem depth_method (input : String) (assembly : Listing.Assembly) :
    (Value.method (method input assembly)).depth ≤ 2 := by
  refine depth_le ?_
  have literals : (tuple (assembly.literals.map (·.value))).depth ≤ 1 := by
    refine depth_le fun child member => ?_
    obtain ⟨literal, _, rfl⟩ := List.mem_map.mp member
    exact (depth_of_leaf (extent_literal literal).2.1).le
  simp only [method, MethodRecord.ofCode, MethodRecord.withLiterals, MethodRecord.withFile,
    children, MethodRecord.fields, List.forall_mem_cons, List.not_mem_nil, false_imp_iff,
    implies_true, and_true]
  and_intros <;> first | exact literals | exact (depth_of_leaf rfl).le.trans (Nat.zero_le 1)

/-- The method is read back as it is. -/
theorem canonical_method (small : assembly.code.stackDepth.toNat < 2 ^ 63) :
    (Value.method (method input assembly)).canonical = .method (method input assembly) := by
  have literals : (assembly.literals.map (·.value)).map canonical =
      assembly.literals.map (·.value) := by
    rw [List.map_map]
    exact List.map_congr_left fun literal _ => (extent_literal literal).2.2
  have announced : announcedDepth (method input assembly).stackSize = assembly.code.stackDepth := by
    have capped : min (assembly.code.stackDepth.toNat : Int) (2 ^ 63 - 1) =
        assembly.code.stackDepth.toNat := by omega
    change announcedDepth (integer (.ofInt (min assembly.code.stackDepth.toNat (2 ^ 63 - 1)))) = _
    rw [capped, announcedDepth_ofInt small, UInt64.ofNat_toNat]
  change Value.method (MethodRecord.withAnnouncedDepth { method input assembly with
    code := .code (.ofWords assembly.code.words)
    literals := tuple (canonicalAll (assembly.literals.map (·.value))) }) = _
  rw [canonicalAll_eq_map, literals, MethodRecord.withAnnouncedDepth]
  dsimp only
  rw [announced]
  rfl

end Compilation

end CompiledCode
