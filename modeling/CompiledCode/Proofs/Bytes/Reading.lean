import CompiledCode.Bytes.Cursor

/-!
Readings are compared with the bytes that they are meant for. A reading accepts bytes when it takes
exactly these, wherever they stand and whatever follows them, and both acceptance and failure of
a sequence of readings come from those of its parts.
-/

namespace CompiledCode.Read

/-- The offset of the next byte. -/
def offset : Read Nat := fun cursor => .ok cursor.offset cursor

/-- An answer that is known without reading. -/
def lift {α : Type} : Except ReadError α → Read α
  | .ok a => pure a
  | .error failure => throw failure

/-- So many readings one after another. -/
def repeated {α : Type} (item : Read α) : Nat → Read (List α)
  | 0 => pure []
  | count + 1 => do
    let first ← item
    let rest ← repeated item count
    return first :: rest

/-- The answer with the offset at which the reading leaves the cursor. -/
def placed {α : Type} (read : Read α) : Read (α × Nat) := do
  let a ← read
  let stop ← offset
  return (a, stop)

/-- The reading takes exactly these bytes, wherever they stand and whatever follows them. -/
def Accepts {α : Type} (read : Read α) (bytes : List UInt8) (a : α) : Prop :=
  ∀ (start : Nat) (tail : List UInt8),
    read ⟨start, bytes ++ tail⟩ = .ok a ⟨start + bytes.length, tail⟩

/-- The reading fails on these bytes, wherever they stand and whatever follows them. -/
def Refuses {α : Type} (read : Read α) (bytes : List UInt8) (failure : ReadError) : Prop :=
  ∀ (start : Nat) (tail : List UInt8), ∃ next,
    read ⟨start, bytes ++ tail⟩ = .error failure next

/-- Every failure of the reading is one of those that are allowed. -/
def FailsOnlyWith {α : Type} (allowed : ReadError → Prop) (read : Read α) : Prop :=
  ∀ (cursor next : Cursor) (failure : ReadError),
    read cursor = .error failure next → allowed failure

/-- Every answer of the reading is one of those that are allowed. -/
def AnswersOnly {α : Type} (allowed : α → Prop) (read : Read α) : Prop :=
  ∀ (cursor next : Cursor) (a : α), read cursor = .ok a next → allowed a

section Sequences

variable {α β : Type} {read : Read α} {next : α → Read β}

theorem bind_eq_ok {cursor last : Cursor} {b : β} :
    (read >>= next) cursor = .ok b last ↔
      ∃ a middle, read cursor = .ok a middle ∧ next a middle = .ok b last := by
  simp only [bind, EStateM.bind]
  cases result : read cursor with
  | ok a middle =>
    constructor
    · intro success
      exact ⟨a, middle, rfl, success⟩
    · rintro ⟨_, _, same, success⟩
      cases same
      exact success
  | error failure middle => simp

theorem bind_eq_error {cursor last : Cursor} {failure : ReadError} :
    (read >>= next) cursor = .error failure last ↔
      read cursor = .error failure last ∨
        ∃ a middle, read cursor = .ok a middle ∧ next a middle = .error failure last := by
  simp only [bind, EStateM.bind]
  cases result : read cursor with
  | ok a middle =>
    constructor
    · intro failed
      exact .inr ⟨a, middle, rfl, failed⟩
    · rintro (failed | ⟨_, _, same, failed⟩)
      · cases failed
      · cases same
        exact failed
  | error failure middle => simp

theorem map_eq_ok {f : α → β} {cursor next : Cursor} {b : β} :
    (f <$> read) cursor = .ok b next ↔ ∃ a, read cursor = .ok a next ∧ f a = b := by
  simp only [Functor.map, EStateM.map]
  cases read cursor with
  | ok a middle =>
    constructor
    · intro success
      cases success
      exact ⟨a, rfl, rfl⟩
    · rintro ⟨_, same, rfl⟩
      cases same
      rfl
  | error failure middle => simp

theorem map_eq_error {f : α → β} {cursor next : Cursor} {failure : ReadError} :
    (f <$> read) cursor = .error failure next ↔ read cursor = .error failure next := by
  simp only [Functor.map, EStateM.map]
  cases read cursor <;> simp

theorem pure_eq_ok {a b : α} {cursor next : Cursor} :
    (pure a : Read α) cursor = .ok b next ↔ a = b ∧ cursor = next := by
  constructor
  · intro success
    injection success with same stays
    exact ⟨same, stays⟩
  · rintro ⟨rfl, rfl⟩
    rfl

theorem length_repeated {item : Read α} {count : Nat} {cursor last : Cursor} {items : List α}
    (success : repeated item count cursor = .ok items last) : items.length = count := by
  induction count generalizing cursor items with
  | zero =>
    cases success
    rfl
  | succ count inductionHypothesis =>
    rw [repeated] at success
    obtain ⟨first, middle, _, tail⟩ := bind_eq_ok.mp success
    obtain ⟨rest, stop, restRead, done⟩ := bind_eq_ok.mp tail
    cases done
    rw [List.length_cons, inductionHypothesis restRead]

end Sequences

/-- What is read of a line are the bytes before the first line feed, if there is one. -/
theorem line_eq (cursor : Cursor) : line cursor =
    match cursor.rest.dropWhile (· != 10) with
    | [] => .error (.unexpectedEnd cursor.limit) cursor
    | _ :: rest => .ok (cursor.rest.takeWhile (· != 10))
        ⟨cursor.offset + (cursor.rest.takeWhile (· != 10)).length + 1, rest⟩ := by
  have behind : (cursor.rest.takeWhile (· != 10) ++ cursor.rest.dropWhile (· != 10)).drop
      (cursor.rest.takeWhile (· != 10)).length = cursor.rest.dropWhile (· != 10) := List.drop_left
  rw [List.takeWhile_append_dropWhile] at behind
  rw [← behind]
  rfl

section Failures

variable {α β : Type} {allowed : ReadError → Prop}

theorem pure_failsOnlyWith (a : α) : FailsOnlyWith allowed (pure a : Read α) := by
  intro cursor next failure failed
  cases failed

theorem throw_failsOnlyWith {failure : ReadError} (isAllowed : allowed failure) :
    FailsOnlyWith allowed (throw failure : Read α) := by
  intro cursor next thrown failed
  cases failed
  exact isAllowed

theorem offset_failsOnlyWith : FailsOnlyWith allowed offset := by
  intro cursor next failure failed
  cases failed

theorem bind_failsOnlyWith {read : Read α} {next : α → Read β}
    (first : FailsOnlyWith allowed read) (second : ∀ a, FailsOnlyWith allowed (next a)) :
    FailsOnlyWith allowed (read >>= next) := by
  intro cursor last failure failed
  rcases bind_eq_error.mp failed with early | ⟨a, middle, _, late⟩
  · exact first cursor last failure early
  · exact second a middle last failure late

theorem map_failsOnlyWith {read : Read α} {f : α → β} (reading : FailsOnlyWith allowed read) :
    FailsOnlyWith allowed (f <$> read) := by
  rw [map_eq_pure_bind]
  exact bind_failsOnlyWith reading fun _ => pure_failsOnlyWith _

theorem byte_failsOnlyWith (endAllowed : ∀ stop, allowed (.unexpectedEnd stop)) :
    FailsOnlyWith allowed byte := by
  intro cursor next failure failed
  unfold byte at failed
  split at failed
  · cases failed
    exact endAllowed _
  · cases failed

theorem bytes_failsOnlyWith (endAllowed : ∀ stop, allowed (.unexpectedEnd stop)) (count : Nat) :
    FailsOnlyWith allowed (bytes count) := by
  intro cursor next failure failed
  unfold bytes at failed
  split at failed
  · cases failed
  · cases failed
    exact endAllowed _

theorem line_failsOnlyWith (endAllowed : ∀ stop, allowed (.unexpectedEnd stop)) :
    FailsOnlyWith allowed line := by
  intro cursor next failure failed
  unfold line at failed
  dsimp only at failed
  split at failed
  · cases failed
    exact endAllowed _
  · cases failed

end Failures

section Answers

variable {α β : Type} {allowed : α → Prop}

theorem pure_answersOnly {a : α} (isAllowed : allowed a) :
    AnswersOnly allowed (pure a : Read α) := by
  intro cursor next answer success
  obtain ⟨rfl, -⟩ := pure_eq_ok.mp success
  exact isAllowed

theorem throw_answersOnly (failure : ReadError) :
    AnswersOnly allowed (throw failure : Read α) := by
  intro cursor next answer success
  cases success

/-- The rest of a sequence may count on what the first reading answers. -/
theorem bind_answersOnly {expected : β → Prop} {read : Read β} {next : β → Read α}
    (first : AnswersOnly expected read)
    (second : ∀ b, expected b → AnswersOnly allowed (next b)) :
    AnswersOnly allowed (read >>= next) := by
  intro cursor last answer success
  obtain ⟨b, middle, firstRead, rest⟩ := bind_eq_ok.mp success
  exact second b (first cursor middle b firstRead) middle last answer rest

theorem any_answersOnly (read : Read α) : AnswersOnly (fun _ => True) read :=
  fun _ _ _ _ => trivial

theorem bytes_answersOnly (count : Nat) : AnswersOnly (·.length = count) (bytes count) := by
  intro cursor next taken success
  unfold bytes at success
  split at success
  · rename_i enough
    cases success
    exact List.length_take_of_le enough
  · cases success

theorem repeated_answersOnly {item : Read α} (each : AnswersOnly allowed item) (count : Nat) :
    AnswersOnly (fun items => items.length = count ∧ ∀ a ∈ items, allowed a)
      (repeated item count) := by
  induction count with
  | zero => exact pure_answersOnly ⟨rfl, List.forall_mem_nil _⟩
  | succ count inductionHypothesis =>
    refine bind_answersOnly each fun first firstAllowed => ?_
    refine bind_answersOnly inductionHypothesis fun rest restAllowed => pure_answersOnly ?_
    exact ⟨by rw [List.length_cons, restAllowed.1],
      List.forall_mem_cons.mpr ⟨firstAllowed, restAllowed.2⟩⟩

end Answers

section Acceptance

variable {α β : Type} {read : Read α} {next : α → Read β} {first second : List UInt8}
  {failure : ReadError}

theorem pure_accepts (a : α) : Accepts (pure a : Read α) [] a := fun _ _ => rfl

theorem bind_accepts {a : α} {b : β} (head : Accepts read first a)
    (rest : Accepts (next a) second b) : Accepts (read >>= next) (first ++ second) b := by
  intro start tail
  rw [List.append_assoc, List.length_append, ← Nat.add_assoc]
  exact bind_eq_ok.mpr ⟨a, _, head start _, rest (start + first.length) tail⟩

theorem map_accepts {a : α} (f : α → β) (reading : Accepts read first a) :
    Accepts (f <$> read) first (f a) := by
  rw [map_eq_pure_bind, ← List.append_nil first]
  exact bind_accepts reading (pure_accepts _)

theorem offset_bind_accepts {next : Nat → Read β} {b : β}
    (reading : ∀ start, Accepts (next start) first b) : Accepts (offset >>= next) first b :=
  fun start tail => reading start start tail

theorem bind_refuses (head : Refuses read first failure) :
    Refuses (read >>= next) (first ++ second) failure := by
  intro start tail
  obtain ⟨last, failed⟩ := head start (second ++ tail)
  refine ⟨last, bind_eq_error.mpr (.inl ?_)⟩
  rw [List.append_assoc]
  exact failed

theorem bind_refuses_rest {a : α} (head : Accepts read first a)
    (rest : Refuses (next a) second failure) :
    Refuses (read >>= next) (first ++ second) failure := by
  intro start tail
  obtain ⟨last, failed⟩ := rest (start + first.length) tail
  rw [List.append_assoc]
  exact ⟨last, bind_eq_error.mpr (.inr ⟨a, _, head start _, failed⟩)⟩

theorem offset_bind_refuses {next : Nat → Read β}
    (reading : ∀ start, Refuses (next start) first failure) :
    Refuses (offset >>= next) first failure :=
  fun start tail => reading start start tail

theorem byte_accepts (letter : UInt8) : Accepts byte [letter] letter := fun _ _ => rfl

theorem bytes_accepts (data : List UInt8) : Accepts (bytes data.length) data data := by
  intro start tail
  rw [bytes, if_pos (by simp)]
  simp only [List.take_left, List.drop_left]

theorem line_accepts {text : List UInt8} (noFeed : ∀ letter ∈ text, letter ≠ 10) :
    Accepts line (text ++ [10]) text := by
  intro start tail
  have prefixTaken : (text ++ 10 :: tail).takeWhile (· != 10) = text := by
    rw [List.takeWhile_append_of_pos (by simpa using noFeed)]
    simp
  simp only [line, List.append_assoc, List.singleton_append, prefixTaken, List.drop_left,
    List.length_append, List.length_singleton, Nat.add_assoc]

end Acceptance

section Repetition

variable {α β : Type} {item : Read α} {encode : β → List UInt8} {decode : β → α}
  {failure : ReadError}

theorem repeated_accepts {values : List β}
    (each : ∀ value ∈ values, Accepts item (encode value) (decode value)) :
    Accepts (repeated item values.length) (values.flatMap encode) (values.map decode) := by
  induction values with
  | nil => exact pure_accepts _
  | cons first rest inductionHypothesis =>
    have tail := inductionHypothesis fun value member => each value (List.mem_cons_of_mem _ member)
    rw [List.flatMap_cons, List.length_cons, repeated, List.map_cons]
    refine bind_accepts (each first List.mem_cons_self) ?_
    rw [← List.append_nil (rest.flatMap encode)]
    exact bind_accepts tail (pure_accepts _)

/-- The first item that is refused ends the reading, and the items before it are taken. -/
theorem repeated_refuses {values : List β}
    (each : ∀ value ∈ values,
      Accepts item (encode value) (decode value) ∨ Refuses item (encode value) failure)
    (one : ∃ value ∈ values, Refuses item (encode value) failure) :
    Refuses (repeated item values.length) (values.flatMap encode) failure := by
  induction values with
  | nil => simp at one
  | cons first rest inductionHypothesis =>
    rw [List.flatMap_cons, List.length_cons, repeated]
    rcases each first List.mem_cons_self with accepted | refused
    · obtain ⟨bad, member, badRefused⟩ := one
      rcases List.mem_cons.mp member with rfl | later
      · exact bind_refuses badRefused
      · have tail := inductionHypothesis
          (fun value inRest => each value (List.mem_cons_of_mem _ inRest)) ⟨bad, later, badRefused⟩
        refine bind_refuses_rest accepted ?_
        rw [← List.append_nil (rest.flatMap encode)]
        exact bind_refuses tail
    · exact bind_refuses refused

end Repetition

end CompiledCode.Read
