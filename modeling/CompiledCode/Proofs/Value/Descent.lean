import CompiledCode.Proofs.Bytes.Reading
import CompiledCode.Value.Unmarshal

/-!
The loop over the containers that are not complete is compared with a reader that calls itself for
every value of a container. What the loop does with a value depends only on the containers that wait
for it, so a value inside them is read by the same descent as one outside of all containers.
-/

namespace CompiledCode

namespace Read

/-- The fourteen fields of a method one after another. -/
def record {α : Type} (item : Read α) : Read (MethodRecord α) := do
  let ivars ← item
  let primitive ← item
  let name ← item
  let code ← item
  let stackSize ← item
  let localCount ← item
  let requiredArguments ← item
  let totalArguments ← item
  let splat ← item
  let literals ← item
  let handlers ← item
  let lines ← item
  let file ← item
  let localNames ← item
  return ⟨ivars, primitive, name, code, stackSize, localCount, requiredArguments, totalArguments,
    splat, literals, handlers, lines, file, localNames⟩

theorem node_eq : node = (do
    let start ← offset
    let letter ← byte
    tagged start letter) := rfl

theorem words_eq_repeated (count : Nat) : words count = repeated Varint.word count := by
  induction count with
  | zero => rfl
  | succ count inductionHypothesis => rw [words, repeated, inductionHypothesis]

/-- A method that is closed over fourteen values has them as its fields. -/
theorem repeated_close_method (item : Read Value) :
    (do let items ← repeated item 14
        lift (Container.close items .method)) =
      (do let fields ← record item
          return .method fields.restoreStackDepth) := by
  simp only [repeated, record, bind_assoc, pure_bind]
  rfl

end Read

namespace Value

/-- What follows a tag, where `inner` reads each value that a container holds. -/
def content (inner : Read Value) : Tag → Read Value
  | .true => return .true
  | .false => return .false
  | .nil => return .nil
  | .integer => do
    let magnitude ← Varint.natural
    return .ofInt magnitude
  | .negativeInteger => do
    let magnitude ← Varint.natural
    return .ofInt (-magnitude)
  | .float => do
    let x ← Read.float
    return .float x
  | .string => do
    let bytes ← Read.countedBytes
    return .string bytes
  | .symbol => do
    let name ← Read.countedBytes
    return .symbol name
  | .sendSite => do
    let name ← Read.countedBytes
    return .sendSite name
  | .array => do
    let count ← Varint.count
    let items ← Read.repeated inner count
    return .array items
  | .tuple => do
    let count ← Varint.count
    let items ← Read.repeated inner count
    return .tuple items
  | .code => do
    let count ← Varint.count
    let words ← Read.repeated Varint.word count
    return .code (.ofWords words)
  | .method => do
    let version ← Varint.word
    if version ≠ 1 then throw (.unsupportedRecord version)
    else do
      let fields ← Read.record inner
      return .method fields.restoreStackDepth

/-- A value that `depth` containers enclose, read by recursive descent. -/
def descend (limit depth : Nat) : Read Value :=
  if limit ≤ depth then throw (.nestingTooDeep limit)
  else do
    let start ← Read.offset
    let letter ← Read.byte
    match Tag.ofByte? letter with
    | none => throw (.unsupportedTag letter start)
    | some tag => content (descend limit (depth + 1)) tag
termination_by limit - depth

/-- The values of a container are read one after another before it is built. -/
def complete (inner : Read Value) : Node → Read Value
  | .leaf value => pure value
  | .open container count => do
    let items ← Read.repeated inner count
    Read.lift (container.close items)

theorem payload_complete (inner : Read Value) (tag : Tag) :
    Read.payload tag >>= complete inner = content inner tag := by
  cases tag with
  | method =>
    simp only [Read.payload, Read.recordHead, content, bind_assoc]
    congr 1
    funext version
    by_cases known : version = 1
    · simp [known, recordVersion, complete, MethodRecord.fieldNames, Read.repeated_close_method]
    · simp only [recordVersion, ne_eq, known, not_false_eq_true, if_true]
      rfl
  | _ => simp [Read.payload, content, complete, Container.close, Read.lift, Read.words_eq_repeated]

theorem descend_eq (limit depth : Nat) : descend limit depth =
    if limit ≤ depth then throw (.nestingTooDeep limit)
    else Read.node >>= complete (descend limit (depth + 1)) := by
  rw [descend, Read.node_eq]
  split
  · rfl
  · simp only [bind_assoc]
    congr 1
    funext start
    congr 1
    funext letter
    rw [Read.tagged]
    cases Tag.ofByte? letter with
    | none => rfl
    | some tag => exact (payload_complete _ tag).symm

section Turns

variable {σ : Type} {source : NodeSource σ} {limit : Nat} {frames : List Frame} {place after : σ}

/-- What the loop does with the containers as a node has left them. -/
def goOn (source : NodeSource σ) (limit : Nat) (after : σ) :
    Except ReadError Progress → EStateM.Result ReadError σ Value
  | .error failure => .error failure after
  | .ok (.finished value) => .ok value after
  | .ok (.waiting frames) => readFrom source limit frames after

/-- Too many containers end the loop before a node is looked for. -/
theorem readFrom_of_deep (deep : limit ≤ frames.length) :
    readFrom source limit frames place = .error (.nestingTooDeep limit) place := by
  rw [readFrom, if_pos deep]

/-- A node that is not found ends the loop. -/
theorem readFrom_of_error (shallow : ¬ limit ≤ frames.length) {failure : ReadError}
    (found : source.next place = .error failure after) :
    readFrom source limit frames place = .error failure after := by
  rw [readFrom, if_neg shallow]
  split <;> rename_i same <;> cases found.symm.trans same
  rfl

/-- A node that is found leads the loop on. -/
theorem readFrom_of_ok (shallow : ¬ limit ≤ frames.length) {node : Node}
    (found : source.next place = .ok node after) :
    readFrom source limit frames place =
      goOn source limit after (Progress.ofNode frames node) := by
  rw [readFrom, if_neg shallow]
  split <;> rename_i same <;> cases found.symm.trans same
  split <;> rename_i settled <;> rw [settled] <;> rfl

end Turns

/-- What completes the containers that are open, innermost first. -/
def readRest (limit : Nat) (frames : List Frame) : Read Value := readInto limit frames

/-- The loop stops with the outermost value or reads on into the containers that wait. -/
def proceed (limit : Nat) : Progress → Read Value
  | .finished value => pure value
  | .waiting frames => readRest limit frames

/-- What the loop does once a value is complete. -/
def resume (limit : Nat) (frames : List Frame) (value : Value) : Read Value :=
  Read.lift (Progress.settle value frames) >>= proceed limit

theorem goOn_bytes (limit : Nat) (next : Cursor) (progress : Except ReadError Progress) :
    goOn .bytes limit next progress = (Read.lift progress >>= proceed limit) next := by
  match progress with
  | .error failure => rfl
  | .ok (.finished value) => rfl
  | .ok (.waiting frames) => rfl

/-- One turn of the loop. -/
theorem readRest_eq (limit : Nat) (frames : List Frame) :
    readRest limit frames =
      if limit ≤ frames.length then throw (.nestingTooDeep limit)
      else (do
        let node ← Read.node
        let progress ← Read.lift (Progress.ofNode frames node)
        proceed limit progress) := by
  funext cursor
  rw [readRest, readInto]
  by_cases deep : limit ≤ frames.length
  · rw [readFrom_of_deep deep, if_pos deep]
    rfl
  · rw [if_neg deep]
    simp only [bind, EStateM.bind]
    cases nodeRead : Read.node cursor with
    | error failure next =>
      have missed : NodeSource.bytes.next cursor = .error failure next := nodeRead
      exact readFrom_of_error deep missed
    | ok node next =>
      have found : NodeSource.bytes.next cursor = .ok node next := nodeRead
      rw [readFrom_of_ok deep found]
      exact goOn_bytes limit next (Progress.ofNode frames node)

theorem resume_nil (limit : Nat) : resume limit [] = pure := rfl

theorem resume_last (limit : Nat) (container : Container) (reversed : List Value)
    (frames : List Frame) (value : Value) :
    resume limit (⟨container, 0, reversed⟩ :: frames) value = (do
      let whole ← Read.lift (container.close (value :: reversed).reverse)
      resume limit frames whole) := by
  rw [resume, Progress.settle]
  cases container.close (value :: reversed).reverse <;> rfl

theorem resume_more (limit : Nat) (container : Container) (missing : Nat) (reversed : List Value)
    (frames : List Frame) (value : Value) :
    resume limit (⟨container, missing + 1, reversed⟩ :: frames) value =
      readRest limit (⟨container, missing, value :: reversed⟩ :: frames) := rfl

/-- The innermost container takes all the values that it waits for and then is a value itself. -/
theorem readRest_frame {limit : Nat} {frames : List Frame} {inner : Read Value}
    (reading : ∀ frame : Frame,
      readRest limit (frame :: frames) = inner >>= resume limit (frame :: frames))
    (container : Container) (missing : Nat) (reversed : List Value) :
    readRest limit (⟨container, missing, reversed⟩ :: frames) = (do
      let items ← Read.repeated inner (missing + 1)
      let whole ← Read.lift (container.close (reversed.reverse ++ items))
      resume limit frames whole) := by
  induction missing generalizing reversed with
  | zero =>
    -- The last value closes the container, and the loop goes on with what encloses it.
    rw [reading]
    simp only [Read.repeated, bind_assoc, pure_bind]
    congr 1
    funext value
    rw [resume_last, List.reverse_cons]
  | succ missing inductionHypothesis =>
    rw [reading, Read.repeated, bind_assoc]
    congr 1
    funext value
    rw [resume_more, inductionHypothesis]
    simp only [bind_assoc, pure_bind, List.reverse_cons, List.append_assoc, List.singleton_append]

/-- The loop reads a value by descent and goes on with the containers that wait for it. -/
theorem readRest_eq_descend (limit : Nat) (frames : List Frame) :
    readRest limit frames = descend limit frames.length >>= resume limit frames := by
  rw [readRest_eq, descend_eq]
  by_cases deep : limit ≤ frames.length
  · rw [if_pos deep, if_pos deep]
    rfl
  · rw [if_neg deep, if_neg deep, bind_assoc]
    congr 1
    funext node
    cases node with
    | leaf value => rfl
    | «open» container count =>
      cases count with
      | zero =>
        simp only [Progress.ofNode, complete, Read.repeated, pure_bind]
        cases container.close [] <;> rfl
      | succ missing =>
        -- One more container is open, so the limit is one step closer.
        have reading : ∀ frame : Frame, readRest limit (frame :: frames) =
            descend limit (frames.length + 1) >>= resume limit (frame :: frames) :=
          fun frame => readRest_eq_descend limit (frame :: frames)
        refine (readRest_frame reading container missing []).trans ?_
        simp only [complete, bind_assoc, List.reverse_nil, List.nil_append]
termination_by limit - frames.length
decreasing_by
  simp only [List.length_cons]
  omega

theorem read_eq_descend (limit : Nat) : read limit = descend limit 0 := by
  change readRest limit [] = _
  rw [readRest_eq_descend, resume_nil]
  exact bind_pure _

end Value

end CompiledCode
