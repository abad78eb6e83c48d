import CompiledCode.Proofs.Bytes.Reading
import CompiledCode.Proofs.Bytes.VarintGroups

/-!
A reading moves its cursor forward over the bytes that it looks at and never changes those that are
left, whether it succeeds or fails.
-/

namespace CompiledCode

/-- The second cursor stands further on in the same bytes. -/
def Cursor.Reaches (start next : Cursor) : Prop :=
  ∃ taken, start.rest = taken ++ next.rest ∧ next.offset = start.offset + taken.length

namespace Cursor.Reaches

variable {start middle next : Cursor}

theorem refl (start : Cursor) : start.Reaches start := ⟨[], rfl, rfl⟩

theorem trans (first : start.Reaches middle) (second : middle.Reaches next) :
    start.Reaches next := by
  obtain ⟨taken, startRest, middleOffset⟩ := first
  obtain ⟨more, middleRest, nextOffset⟩ := second
  refine ⟨taken ++ more, ?_, ?_⟩
  · rw [startRest, middleRest, List.append_assoc]
  · rw [nextOffset, middleOffset, List.length_append, Nat.add_assoc]

theorem cons {letter : UInt8} {rest : List UInt8} {offset : Nat}
    (reaches : Reaches ⟨offset + 1, rest⟩ next) : Reaches ⟨offset, letter :: rest⟩ next :=
  trans ⟨[letter], rfl, rfl⟩ reaches

theorem offset_le (reaches : start.Reaches next) : start.offset ≤ next.offset := by
  obtain ⟨taken, _, stop⟩ := reaches
  exact stop ▸ Nat.le_add_right _ _

end Cursor.Reaches

namespace Read

/-- The cursor that a reading leaves. -/
def leaves {α : Type} : EStateM.Result ReadError Cursor α → Cursor
  | .ok _ next => next
  | .error _ next => next

/-- The reading moves forward over the bytes that it looks at, also when it fails. -/
def MovesForward {α : Type} (read : Read α) : Prop :=
  ∀ cursor : Cursor, cursor.Reaches (leaves (read cursor))

section Sequences

variable {α β : Type} {read : Read α} {next : α → Read β}

theorem MovesForward.of_ok {cursor last : Cursor} {a : α} (moves : read.MovesForward)
    (success : read cursor = .ok a last) : cursor.Reaches last := by
  have reaches := moves cursor
  rwa [success] at reaches

theorem pure_movesForward (a : α) : MovesForward (pure a : Read α) := Cursor.Reaches.refl

theorem throw_movesForward (failure : ReadError) : MovesForward (throw failure : Read α) :=
  Cursor.Reaches.refl

theorem offset_movesForward : MovesForward offset := Cursor.Reaches.refl

theorem bind_movesForward (first : MovesForward read) (second : ∀ a, MovesForward (next a)) :
    MovesForward (read >>= next) := by
  intro cursor
  have reaches := first cursor
  simp only [bind, EStateM.bind]
  cases result : read cursor with
  | ok a middle =>
    rw [result] at reaches
    exact reaches.trans (second a middle)
  | error failure middle =>
    rw [result] at reaches
    exact reaches

theorem leaves_map (f : α → β) (cursor : Cursor) :
    leaves ((f <$> read) cursor) = leaves (read cursor) := by
  simp only [Functor.map, EStateM.map]
  cases read cursor <;> rfl

theorem map_movesForward (f : α → β) (moves : MovesForward read) : MovesForward (f <$> read) := by
  intro cursor
  rw [leaves_map]
  exact moves cursor

theorem repeated_movesForward (reading : MovesForward read) (count : Nat) :
    MovesForward (repeated read count) := by
  induction count with
  | zero => exact pure_movesForward _
  | succ count inductionHypothesis =>
    exact bind_movesForward reading fun _ =>
      bind_movesForward inductionHypothesis fun _ => pure_movesForward _

/-- Every item is the answer of a reading of its own, between the ends of the whole. -/
theorem of_mem_repeated (moves : MovesForward read) {count : Nat} {cursor last : Cursor}
    {items : List α} (success : repeated read count cursor = .ok items last) {a : α}
    (member : a ∈ items) :
    ∃ start stop, cursor.Reaches start ∧ read start = .ok a stop ∧ stop.Reaches last := by
  induction count generalizing cursor items with
  | zero =>
    cases success
    cases member
  | succ count inductionHypothesis =>
    rw [repeated] at success
    obtain ⟨first, middle, firstRead, tail⟩ := bind_eq_ok.mp success
    obtain ⟨rest, stop, restRead, done⟩ := bind_eq_ok.mp tail
    obtain ⟨rfl, rfl⟩ := pure_eq_ok.mp done
    rcases List.mem_cons.mp member with rfl | later
    · exact ⟨cursor, middle, .refl _, firstRead,
        (repeated_movesForward moves count).of_ok restRead⟩
    · obtain ⟨start, itemStop, before, itemRead, after⟩ := inductionHypothesis restRead later
      exact ⟨start, itemStop, (moves.of_ok firstRead).trans before, itemRead, after⟩

end Sequences

theorem byte_movesForward : MovesForward byte := by
  rintro ⟨offset, rest⟩
  cases rest with
  | nil => exact .refl _
  | cons letter rest => exact .cons (.refl _)

theorem bytes_movesForward (count : Nat) : MovesForward (bytes count) := by
  intro cursor
  by_cases enough : count ≤ cursor.rest.length
  · rw [bytes, if_pos enough]
    refine ⟨cursor.rest.take count, (List.take_append_drop _ _).symm, ?_⟩
    rw [List.length_take, Nat.min_eq_left enough]
    rfl
  · rw [bytes, if_neg enough]
    exact .refl _

theorem line_movesForward : MovesForward line := by
  intro cursor
  have parts : cursor.rest.takeWhile (· != 10) ++ cursor.rest.dropWhile (· != 10) = cursor.rest :=
    List.takeWhile_append_dropWhile
  rw [line_eq]
  split
  · exact .refl _
  · rename_i feed rest behind
    rw [behind] at parts
    refine ⟨cursor.rest.takeWhile (· != 10) ++ [feed], ?_, ?_⟩
    · rw [List.append_assoc, List.singleton_append]
      exact parts.symm
    · rw [List.length_append, List.length_singleton, ← Nat.add_assoc]
      rfl

end Read

namespace Varint

theorem wordFrom_movesForward (start index value offset : Nat) (bytes : List UInt8) :
    Cursor.Reaches ⟨offset, bytes⟩ (Read.leaves (wordFrom start index value offset bytes)) := by
  induction bytes generalizing index value offset with
  | nil => exact .refl _
  | cons byte rest inductionHypothesis =>
    rw [wordFrom]
    dsimp only
    split
    · exact .cons (.refl _)
    · split
      · exact .cons (.refl _)
      · exact .cons (inductionHypothesis _ _ _)

theorem naturalFrom_movesForward (index value offset : Nat) (bytes : List UInt8) :
    Cursor.Reaches ⟨offset, bytes⟩ (Read.leaves (naturalFrom index value offset bytes)) := by
  induction bytes generalizing index value offset with
  | nil => exact .refl _
  | cons byte rest inductionHypothesis =>
    rw [naturalFrom]
    split
    · exact .cons (.refl _)
    · exact .cons (inductionHypothesis _ _ _)

theorem word_movesForward : word.MovesForward := fun _ => wordFrom_movesForward _ _ _ _ _

theorem natural_movesForward : natural.MovesForward := by
  intro cursor
  rw [natural_eq]
  exact naturalFrom_movesForward _ _ _ _

end Varint

end CompiledCode
