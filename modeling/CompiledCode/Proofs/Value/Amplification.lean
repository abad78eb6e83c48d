import CompiledCode.Proofs.Value.Refinement
import CompiledCode.Proofs.Value.Worth

/-!
Bytes may announce any counts and lengths, but reading them is no more work than there are bytes, and
a value that is read is no larger than the bytes that were taken for it.
-/

namespace CompiledCode

namespace Read

/-- A node can be read at the cursor. -/
def findsNode (cursor : Cursor) : Bool :=
  match node cursor with
  | .ok _ _ => true
  | .error _ _ => false

/-- From the cursor on, each of the places but the first is where the node before it ends. -/
inductive NodesFrom : Cursor → List Cursor → Prop where
  | none (cursor : Cursor) : NodesFrom cursor []
  | last (cursor : Cursor) : NodesFrom cursor [cursor]
  | more {cursor next : Cursor} {node : Node} {places : List Cursor}
    (nodeRead : Read.node cursor = .ok node next) (later : NodesFrom next places) :
    NodesFrom cursor (cursor :: places)

/-- Every node takes a byte, and only at the last of the places there may be none. -/
theorem NodesFrom.counts {cursor : Cursor} {places : List Cursor}
    (nodes : NodesFrom cursor places) :
    places.countP findsNode ≤ cursor.rest.length ∧
      places.countP (fun place => !findsNode place) ≤ 1 := by
  induction nodes with
  | none cursor => exact ⟨Nat.zero_le _, Nat.zero_le _⟩
  | last cursor =>
    cases result : node cursor with
    | ok node next =>
      have finds : findsNode cursor = true := by rw [findsNode, result]
      have shorter := node_shortens result
      simp only [List.countP_singleton, finds]
      exact ⟨Nat.lt_of_le_of_lt (Nat.zero_le _) shorter, Nat.zero_le _⟩
    | error failure next =>
      have finds : findsNode cursor = false := by rw [findsNode, result]
      simp [finds]
  | @more cursor next node places nodeRead later inductionHypothesis =>
    obtain ⟨found, missed⟩ := inductionHypothesis
    have finds : findsNode cursor = true := by rw [findsNode, nodeRead]
    have shorter := node_shortens nodeRead
    rw [List.countP_cons_of_pos finds, List.countP_cons_of_neg (by simp [finds])]
    exact ⟨by omega, missed⟩

end Read

/-- The same outcome, with the place that is left seen in another way. -/
def Read.relocated {σ τ α : Type} (view : σ → τ) :
    EStateM.Result ReadError σ α → EStateM.Result ReadError τ α
  | .ok answer place => .ok answer (view place)
  | .error failure place => .error failure (view place)

/-- The same nodes, with a record of all the places at which one is looked for. -/
def NodeSource.recorded {σ : Type} (source : NodeSource σ) : NodeSource (List σ × σ) where
  next := fun (places, place) =>
    Read.relocated (fun after => (places ++ [place], after)) (source.next place)
  left := fun (_, place) => source.left place
  shortens := by
    intro (places, place) after node success
    dsimp only at success
    cases found : source.next place with
    | ok other next =>
      rw [found] at success
      cases success
      exact source.shortens found
    | error failure next =>
      rw [found] at success
      cases success

namespace NodeSource

variable {σ : Type} {source : NodeSource σ} {place after : σ}

theorem recorded_ok {node : Node} (found : source.next place = .ok node after) (earlier : List σ) :
    source.recorded.next (earlier, place) = .ok node (earlier ++ [place], after) := by
  change Read.relocated _ (source.next place) = _
  rw [found]
  rfl

theorem recorded_error {failure : ReadError} (missed : source.next place = .error failure after)
    (earlier : List σ) :
    source.recorded.next (earlier, place) = .error failure (earlier ++ [place], after) := by
  change Read.relocated _ (source.next place) = _
  rw [missed]
  rfl

end NodeSource

namespace Value

/-- The loop over recorded nodes: the places at which it looks for one, in order, and its result. -/
def readLogged (limit : Nat) (frames : List Frame) (cursor : Cursor) :
    List Cursor × EStateM.Result ReadError Cursor Value :=
  match readFrom NodeSource.bytes.recorded limit frames ([], cursor) with
  | .ok value (places, next) => (places, .ok value next)
  | .error failure (places, next) => (places, .error failure next)

/--
The record changes nothing in the result. It is complete: only a loop that may not look for a node
at all has an empty one, and other nodes elsewhere would have led to the same result.
-/
theorem readFrom_recorded (limit : Nat) (frames : List Frame) (cursor : Cursor)
    (earlier : List Cursor) :
    ∃ places, readFrom NodeSource.bytes.recorded limit frames (earlier, cursor) =
        Read.relocated (fun next => (earlier ++ places, next)) (readInto limit frames cursor) ∧
      Read.NodesFrom cursor places ∧ (places = [] → limit ≤ frames.length) ∧
      ∀ source : NodeSource Cursor, (∀ place ∈ places, source.next place = Read.node place) →
        readFrom source limit frames cursor = readInto limit frames cursor := by
  rw [readInto]
  fun_induction readFrom NodeSource.bytes limit frames cursor generalizing earlier with
  | case1 frames cursor deep =>
    refine ⟨[], ?_, .none cursor, fun _ => deep, fun source _ => readFrom_of_deep deep⟩
    rw [readFrom_of_deep deep, List.append_nil]
    rfl
  | case2 frames cursor shallow failure next nodeRead =>
    have recorded := NodeSource.recorded_error nodeRead earlier
    refine ⟨[cursor], readFrom_of_error shallow recorded, .last cursor, by simp, ?_⟩
    intro source same
    exact readFrom_of_error shallow ((same cursor List.mem_cons_self).trans nodeRead)
  | case3 frames cursor shallow node next nodeRead failure settled =>
    have recorded := NodeSource.recorded_ok nodeRead earlier
    refine ⟨[cursor], ?_, .last cursor, by simp, ?_⟩
    · rw [readFrom_of_ok shallow recorded, settled]
      rfl
    · intro source same
      rw [readFrom_of_ok shallow ((same cursor List.mem_cons_self).trans nodeRead), settled]
      rfl
  | case4 frames cursor shallow node next nodeRead value settled =>
    have recorded := NodeSource.recorded_ok nodeRead earlier
    refine ⟨[cursor], ?_, .last cursor, by simp, ?_⟩
    · rw [readFrom_of_ok shallow recorded, settled]
      rfl
    · intro source same
      rw [readFrom_of_ok shallow ((same cursor List.mem_cons_self).trans nodeRead), settled]
      rfl
  | case5 frames cursor shallow node next nodeRead waiting settled inductionHypothesis =>
    have recorded := NodeSource.recorded_ok nodeRead earlier
    obtain ⟨places, run, nodes, _, complete⟩ := inductionHypothesis (earlier ++ [cursor])
    refine ⟨cursor :: places, ?_, .more nodeRead nodes, by simp, ?_⟩
    · rw [readFrom_of_ok shallow recorded, settled]
      rw [List.append_assoc] at run
      exact run
    · intro source same
      obtain ⟨here, later⟩ := List.forall_mem_cons.mp same
      rw [readFrom_of_ok shallow (here.trans nodeRead), settled]
      exact complete source later

/--
Whatever counts and lengths the bytes announce, the loop reads at most as many nodes as there are bytes
from its start, and at most once it looks for a node and finds none. The nodes of the value, the
bytes of its texts and the words of its code are together at most the bytes that were taken for it.
-/
theorem read_does_not_amplify (limit : Nat) (start : Cursor) :
    (∃ places, readLogged limit [] start = (places, read limit start) ∧
      Read.NodesFrom start places ∧
      places.countP Read.findsNode ≤ start.rest.length ∧
      places.countP (fun place => !Read.findsNode place) ≤ 1 ∧
      (places = [] → limit = 0) ∧
      ∀ source : NodeSource Cursor, (∀ place ∈ places, source.next place = Read.node place) →
        readFrom source limit [] start = read limit start) ∧
    ∀ value next, read limit start = .ok value next →
      ∃ taken, start.rest = taken ++ next.rest ∧ next.offset = start.offset + taken.length ∧
        value.nodes.length + (value.nodes.map textLength).sum + (value.nodes.map wordCount).sum ≤
          taken.length := by
  constructor
  · obtain ⟨places, run, nodes, empty, complete⟩ := readFrom_recorded limit [] start []
    obtain ⟨found, missed⟩ := nodes.counts
    refine ⟨places, ?_, nodes, found, missed, fun nothing => ?_, complete⟩
    · rw [readLogged, run]
      change _ = (places, readInto limit [] start)
      cases readInto limit [] start <;> rfl
    · exact Nat.le_zero.mp (empty nothing)
  · intro value next success
    rw [read_eq_descend] at success
    obtain ⟨taken, parts, stop⟩ :=
      (Read.movesForward_passes.descend limit 0).of_ok success
    have paid := descend_paysFor limit 0 start next value success
    have total := congrArg List.length parts
    rw [List.length_append] at total
    exact ⟨taken, parts, stop, by rw [worth] at paid; omega⟩

/--
Of the eleven bytes of this tuple eight are for its four nodes, a text of two bytes and code of two
words. An array that announces as many values as a word can count is given up at the second look.
-/
theorem read_does_not_amplify_tuple :
    let tuple : List UInt8 := [112, 3, 115, 2, 97, 98, 105, 2, 1, 2, 110]
    let announced : List UInt8 := 65 :: List.replicate 9 0xFF ++ [1]
    read 9 ⟨0, tuple ++ [7]⟩ =
      .ok (.tuple [.string [97, 98], .code (.ofWords [1, 2]), .nil]) ⟨11, [7]⟩ ∧
    (∃ taken, tuple ++ [7] = taken ++ [7] ∧ 11 = 0 + taken.length ∧ 4 + 2 + 2 ≤ taken.length) ∧
    ∃ places, readLogged 9 [] (.ofBytes announced) = (places, read 9 (.ofBytes announced)) ∧
      places.countP Read.findsNode ≤ 11 ∧
      places.countP (fun place => !Read.findsNode place) ≤ 1 := by
  intro tuple announced
  obtain ⟨⟨places, logged, -, found, missed, -⟩, -⟩ := read_does_not_amplify 9 (.ofBytes announced)
  have success : read 9 ⟨0, tuple ++ [7]⟩ =
      .ok (.tuple [.string [97, 98], .code (.ofWords [1, 2]), .nil]) ⟨11, [7]⟩ := by cbv
  exact ⟨success, (read_does_not_amplify 9 ⟨0, tuple ++ [7]⟩).2 _ _ success,
    places, logged, found, missed⟩

end Value

end CompiledCode
