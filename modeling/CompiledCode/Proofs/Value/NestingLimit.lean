import CompiledCode.Proofs.Bytes.VarintRoundTrip
import CompiledCode.Proofs.Outcomes
import CompiledCode.Proofs.Value.Worth

/-!
The limit on the nesting of a value is only there to refuse values. With a larger limit a reading does
the same, unless the smaller one refuses it, and no limit refuses bytes that are fewer than twice
the limit, because a container that is open has taken two bytes.
-/

namespace CompiledCode

/-- The failure of a single node, which knows nothing of the containers around it. -/
def ReadError.IsOfNode : ReadError → Prop
  | .nestingTooDeep _ => False
  | _ => True

namespace Read

theorem word_failsOnlyWith_isOfNode : Varint.word.FailsOnlyWith ReadError.IsOfNode :=
  Varint.word_failsOnlyWith (fun _ => trivial) fun _ => trivial

theorem count_failsOnlyWith_isOfNode : Varint.count.FailsOnlyWith ReadError.IsOfNode :=
  map_failsOnlyWith word_failsOnlyWith_isOfNode

theorem countedBytes_failsOnlyWith_isOfNode : countedBytes.FailsOnlyWith ReadError.IsOfNode :=
  bind_failsOnlyWith count_failsOnlyWith_isOfNode fun count =>
    bytes_failsOnlyWith (fun _ => trivial) count

theorem words_failsOnlyWith_isOfNode (count : Nat) :
    (words count).FailsOnlyWith ReadError.IsOfNode := by
  induction count with
  | zero => exact pure_failsOnlyWith _
  | succ count inductionHypothesis =>
    exact bind_failsOnlyWith word_failsOnlyWith_isOfNode fun _ =>
      bind_failsOnlyWith inductionHypothesis fun _ => pure_failsOnlyWith _

theorem float_failsOnlyWith_isOfNode : float.FailsOnlyWith ReadError.IsOfNode := by
  refine bind_failsOnlyWith (line_failsOnlyWith fun _ => trivial) fun text => ?_
  cases result : Binary64.ofLine text with
  | ok x => exact pure_failsOnlyWith _
  | error failure =>
    apply throw_failsOnlyWith
    unfold Binary64.ofLine at result
    split at result
    · cases result
    · cases result
      trivial

theorem payload_failsOnlyWith_isOfNode (tag : Tag) :
    (payload tag).FailsOnlyWith ReadError.IsOfNode := by
  cases tag with
  | true | false | nil => exact pure_failsOnlyWith _
  | integer | negativeInteger =>
    exact map_failsOnlyWith (Varint.natural_failsOnlyWith fun _ => trivial)
  | float => exact map_failsOnlyWith float_failsOnlyWith_isOfNode
  | string | symbol | sendSite => exact map_failsOnlyWith countedBytes_failsOnlyWith_isOfNode
  | array | tuple => exact map_failsOnlyWith count_failsOnlyWith_isOfNode
  | code =>
    exact map_failsOnlyWith (bind_failsOnlyWith count_failsOnlyWith_isOfNode fun count =>
      words_failsOnlyWith_isOfNode count)
  | method =>
    refine bind_failsOnlyWith word_failsOnlyWith_isOfNode fun version => ?_
    split
    · exact pure_failsOnlyWith _
    · exact throw_failsOnlyWith trivial

/-- A node alone is never nested too deep. -/
theorem node_failsOnlyWith_isOfNode : node.FailsOnlyWith ReadError.IsOfNode := by
  rw [node_eq]
  refine bind_failsOnlyWith offset_failsOnlyWith fun start =>
    bind_failsOnlyWith (byte_failsOnlyWith fun _ => trivial) fun letter => ?_
  unfold tagged
  split
  · exact payload_failsOnlyWith_isOfNode _
  · exact throw_failsOnlyWith trivial

end Read

namespace Progress

variable {value : Value} {frames waiting : List Frame}

/-- A complete value opens no container. -/
theorem length_settle (settled : settle value frames = .ok (.waiting waiting)) :
    waiting.length ≤ frames.length := by
  induction frames generalizing value with
  | nil => cases settled
  | cons frame frames inductionHypothesis =>
    obtain ⟨container, missing, reversed⟩ := frame
    cases missing with
    | zero =>
      obtain ⟨whole, _, settledWhole⟩ := except_bind_eq_ok.mp settled
      exact Nat.le_succ_of_le (inductionHypothesis settledWhole)
    | succ missing =>
      cases settled
      exact Nat.le_refl _

/-- A node opens at most one container, and it pays two bytes for it. -/
theorem length_ofNode {node : Node} (settled : ofNode frames node = .ok (.waiting waiting)) :
    2 * waiting.length ≤ 2 * frames.length + node.worth := by
  cases node with
  | leaf leaf =>
    have opened := length_settle settled
    omega
  | «open» container count =>
    cases count with
    | zero =>
      obtain ⟨whole, _, settledWhole⟩ := except_bind_eq_ok.mp settled
      have opened := length_settle settledWhole
      omega
    | succ missing =>
      cases settled
      rw [List.length_cons, Node.worth]
      omega

end Progress

/-- Closing a container fails for its number of values only. -/
theorem Container.isOfNode_of_close {container : Container} {items : List Value}
    {failure : ReadError} (failed : container.close items = .error failure) : failure.IsOfNode := by
  cases container with
  | array | tuple => cases failed
  | method =>
    rw [close] at failed
    split at failed
    · cases failed
    · cases failed
      trivial

namespace Progress

theorem isOfNode_of_settle {value : Value} {frames : List Frame} {failure : ReadError}
    (failed : settle value frames = .error failure) : failure.IsOfNode := by
  induction frames generalizing value with
  | nil => cases failed
  | cons frame frames inductionHypothesis =>
    obtain ⟨container, missing, reversed⟩ := frame
    cases missing with
    | zero =>
      rcases except_bind_eq_error.mp failed with notClosed | ⟨whole, _, failedWhole⟩
      · exact Container.isOfNode_of_close notClosed
      · exact inductionHypothesis failedWhole
    | succ missing => cases failed

theorem isOfNode_of_ofNode {frames : List Frame} {node : Node} {failure : ReadError}
    (failed : ofNode frames node = .error failure) : failure.IsOfNode := by
  cases node with
  | leaf value => exact isOfNode_of_settle failed
  | «open» container count =>
    cases count with
    | zero =>
      rcases except_bind_eq_error.mp failed with notClosed | ⟨whole, _, failedWhole⟩
      · exact Container.isOfNode_of_close notClosed
      · exact isOfNode_of_settle failedWhole
    | succ missing => cases failed

end Progress

namespace Value

section Loop

variable {limit : Nat}

/-- Along the loop a larger limit changes nothing until the smaller one refuses. -/
theorem readFrom_of_le {σ : Type} (source : NodeSource σ) {larger : Nat} (atMost : limit ≤ larger)
    (frames : List Frame) (place : σ) :
    (∃ after, readFrom source limit frames place = .error (.nestingTooDeep limit) after) ∨
      readFrom source larger frames place = readFrom source limit frames place := by
  fun_induction readFrom source limit frames place with
  | case1 frames place deep => exact .inl ⟨place, rfl⟩
  | case2 frames place shallow failure after missed =>
    exact .inr (readFrom_of_error (by omega) missed)
  | case3 frames place shallow node after found failure settled =>
    right
    rw [readFrom_of_ok (by omega) found, settled]
    rfl
  | case4 frames place shallow node after found value settled =>
    right
    rw [readFrom_of_ok (by omega) found, settled]
    rfl
  | case5 frames place shallow node after found waiting settled inductionHypothesis =>
    have turn : readFrom source larger frames place = readFrom source larger waiting after := by
      rw [readFrom_of_ok (by omega) found, settled]
      rfl
    rw [turn]
    exact inductionHypothesis

/-- The loop refuses a value only where the bytes reach to the limit, at two for every container. -/
theorem readInto_ne_tooDeep (frames : List Frame) (cursor : Cursor)
    (room : cursor.rest.length + 2 * frames.length < 2 * limit) (found : Nat) (next : Cursor) :
    readInto limit frames cursor ≠ .error (.nestingTooDeep found) next := by
  rw [readInto]
  fun_induction readFrom NodeSource.bytes limit frames cursor with
  | case1 frames cursor deep => omega
  | case2 frames cursor shallow failure stop nodeRead =>
    intro refused
    cases refused
    exact Read.node_failsOnlyWith_isOfNode _ _ _ nodeRead
  | case3 frames cursor shallow node stop nodeRead failure settled =>
    intro refused
    cases refused
    exact Progress.isOfNode_of_ofNode settled
  | case4 frames cursor shallow node stop nodeRead value settled =>
    intro refused
    cases refused
  | case5 frames cursor shallow node stop nodeRead waiting settled inductionHypothesis =>
    have paid := Read.node_paysFor _ _ _ nodeRead
    have opened := Progress.length_ofNode settled
    exact inductionHypothesis (by omega)

end Loop

theorem unmarshal_of_read_eq {limit larger : Nat} {bytes : List UInt8}
    (same : read larger (.ofBytes bytes) = read limit (.ofBytes bytes)) :
    unmarshal larger bytes = unmarshal limit bytes := by
  rw [unmarshal, unmarshal, same]

/-- The whole is too deep when its value is. -/
theorem unmarshal_eq_tooDeep_iff {limit found : Nat} {bytes : List UInt8} :
    unmarshal limit bytes = .error (.nestingTooDeep found) ↔
      ∃ next, read limit (.ofBytes bytes) = .error (.nestingTooDeep found) next := by
  unfold unmarshal
  cases read limit (.ofBytes bytes) with
  | error failure next => simp
  | ok value next =>
    cases empty : next.isEmpty with
    | true => simp [empty]
    | false => simp [empty]

/--
A larger limit gives the result that a smaller one gives, with the cursor at the same place, unless
the smaller one refuses a value that is nested too deep. A limit refuses nothing when the bytes are
fewer than twice the limit.
-/
theorem read_limit_only_refuses (limit : Nat) :
    (∀ (larger : Nat) (cursor : Cursor), limit ≤ larger →
      (∀ found next, read limit cursor ≠ .error (.nestingTooDeep found) next) →
        read larger cursor = read limit cursor) ∧
    (∀ (larger : Nat) (bytes : List UInt8), limit ≤ larger →
      (∀ found, unmarshal limit bytes ≠ .error (.nestingTooDeep found)) →
        read larger (.ofBytes bytes) = read limit (.ofBytes bytes) ∧
        unmarshal larger bytes = unmarshal limit bytes) ∧
    (∀ cursor : Cursor, cursor.rest.length < 2 * limit →
      ∀ found next, read limit cursor ≠ .error (.nestingTooDeep found) next) ∧
    (∀ bytes : List UInt8, bytes.length < 2 * limit →
      ∀ found, unmarshal limit bytes ≠ .error (.nestingTooDeep found)) := by
  have same : ∀ (larger : Nat) (cursor : Cursor), limit ≤ larger →
      (∀ found next, read limit cursor ≠ .error (.nestingTooDeep found) next) →
        read larger cursor = read limit cursor := by
    intro larger cursor atMost accepted
    rcases readFrom_of_le .bytes atMost [] cursor with ⟨next, refused⟩ | same
    · exact absurd refused (accepted limit next)
    · exact same
  have roomy : ∀ cursor : Cursor, cursor.rest.length < 2 * limit →
      ∀ found next, read limit cursor ≠ .error (.nestingTooDeep found) next :=
    fun cursor room => readInto_ne_tooDeep [] cursor room
  refine ⟨same, ?_, roomy, ?_⟩
  · intro larger bytes atMost accepted
    have sameRead : read larger (.ofBytes bytes) = read limit (.ofBytes bytes) := by
      apply same larger _ atMost
      intro found next refused
      exact accepted found (unmarshal_eq_tooDeep_iff.mpr ⟨next, refused⟩)
    exact ⟨sameRead, unmarshal_of_read_eq sameRead⟩
  · intro bytes room found refused
    obtain ⟨next, readRefused⟩ := unmarshal_eq_tooDeep_iff.mp refused
    exact roomy (.ofBytes bytes) room found next readRefused

/--
Two containers around nothing are accepted with a limit of two, and with a larger one as well. With a
value inside them they are refused: their four bytes are twice the limit.
-/
theorem read_limit_only_refuses_nested :
    let nested : List UInt8 := [65, 1, 112, 0]
    let deeper : List UInt8 := [65, 1, 112, 1]
    read 2 (.ofBytes nested) = .ok (.array [.tuple []]) ⟨4, []⟩ ∧
    read 7 (.ofBytes nested) = .ok (.array [.tuple []]) ⟨4, []⟩ ∧
    unmarshal 7 nested = unmarshal 2 nested ∧
    read 2 (.ofBytes deeper) = .error (.nestingTooDeep 2) ⟨4, []⟩ ∧
    (∀ found next, read 3 (.ofBytes deeper) ≠ .error (.nestingTooDeep found) next) ∧
    (∀ found, unmarshal 3 deeper ≠ .error (.nestingTooDeep found)) := by
  intro nested deeper
  obtain ⟨same, sameWhole, -, -⟩ := read_limit_only_refuses 2
  obtain ⟨-, -, roomy, roomyWhole⟩ := read_limit_only_refuses 3
  have accepted : read 2 (.ofBytes nested) = .ok (.array [.tuple []]) ⟨4, []⟩ := by cbv
  have notRefused : ∀ found next,
      read 2 (.ofBytes nested) ≠ .error (.nestingTooDeep found) next := by
    intro found next refused
    rw [accepted] at refused
    cases refused
  have wholeNotRefused : ∀ found, unmarshal 2 nested ≠ .error (.nestingTooDeep found) := by
    intro found refused
    obtain ⟨next, readRefused⟩ := unmarshal_eq_tooDeep_iff.mp refused
    exact notRefused found next readRefused
  refine ⟨accepted, ?_, (sameWhole 7 nested (by decide) wholeNotRefused).2, by cbv,
    roomy (.ofBytes deeper) (by decide), roomyWhole deeper (by decide)⟩
  rw [same 7 (.ofBytes nested) (by decide) notRefused, accepted]

end Value

end CompiledCode
