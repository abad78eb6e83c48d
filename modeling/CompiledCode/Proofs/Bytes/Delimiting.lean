import CompiledCode.Proofs.Bytes.Reading
import CompiledCode.Proofs.Bytes.VarintGroups
import Mathlib.Data.List.TakeWhile

/-!
A reading that succeeds depends on the bytes that it takes and on nothing behind them. It finds the
end of these bytes by itself, and so it notices at the end of the input when the last ones are
missing.
-/

namespace CompiledCode

namespace Read

variable {α β : Type}

/--
The reading takes these bytes at the offset whatever follows them. Where some of them are missing at
the end, it fails there.
-/
structure Takes (read : Read α) (start : Nat) (taken : List UInt8) (a : α) : Prop where
  whole (tail : List UInt8) : read ⟨start, taken ++ tail⟩ = .ok a ⟨start + taken.length, tail⟩
  cut {short missing : List UInt8} (parts : taken = short ++ missing) (lacking : missing ≠ []) :
    ∃ last, read ⟨start, short⟩ = .error (.unexpectedEnd (start + short.length)) last

/-- Whenever the reading succeeds, the bytes that it has passed are the ones that it takes. -/
def Delimits (read : Read α) : Prop :=
  ∀ (cursor next : Cursor) (a : α), read cursor = .ok a next →
    ∃ taken, cursor.rest = taken ++ next.rest ∧ read.Takes cursor.offset taken a

section Sequences

variable {read : Read α} {start : Nat} {taken : List UInt8} {a : α}

theorem Takes.of_nil (success : ∀ tail, read ⟨start, tail⟩ = .ok a ⟨start, tail⟩) :
    read.Takes start [] a where
  whole := success
  cut parts lacking := absurd (List.nil_eq_append_iff.mp parts).2 lacking

theorem pure_takes (start : Nat) (a : α) : Takes (pure a) start [] a := .of_nil fun _ => rfl

/-- A byte that is passed over is the first of the bytes that are taken. -/
theorem Takes.cons {later : Read α} {letter : UInt8} {last : Cursor}
    (empty : read ⟨start, []⟩ = .error (.unexpectedEnd start) last)
    (passes : ∀ rest, read ⟨start, letter :: rest⟩ = later ⟨start + 1, rest⟩)
    (rest : later.Takes (start + 1) taken a) : read.Takes start (letter :: taken) a where
  whole tail := by
    rw [List.cons_append, passes, rest.whole, List.length_cons, Nat.add_right_comm, Nat.add_assoc]
  cut := by
    intro short missing parts lacking
    cases short with
    | nil => exact ⟨last, empty⟩
    | cons first short =>
      obtain ⟨rfl, restParts⟩ := List.cons.inj parts
      obtain ⟨stop, failed⟩ := rest.cut restParts lacking
      refine ⟨stop, ?_⟩
      rw [passes, failed, List.length_cons, Nat.add_right_comm, Nat.add_assoc]

/-- What is cut off from the bytes of two readings is cut off from the first or from the second. -/
theorem Takes.bind {next : α → Read β} {more : List UInt8} {b : β}
    (first : read.Takes start taken a) (second : (next a).Takes (start + taken.length) more b) :
    (read >>= next).Takes start (taken ++ more) b where
  whole tail := by
    have head := first.whole (more ++ tail)
    rw [← List.append_assoc] at head
    rw [List.length_append, ← Nat.add_assoc]
    exact bind_eq_ok.mpr ⟨a, _, head, second.whole tail⟩
  cut := by
    intro short missing parts lacking
    rcases List.append_eq_append_iff.mp parts with
      ⟨piece, rfl, moreParts⟩ | ⟨piece, rfl, missingParts⟩
    · obtain ⟨last, failed⟩ := second.cut moreParts lacking
      rw [Nat.add_assoc, ← List.length_append] at failed
      exact ⟨last, bind_eq_error.mpr (.inr ⟨a, _, first.whole piece, failed⟩)⟩
    · by_cases nothing : piece = []
      · -- The cut falls between the two readings, and the second one finds nothing.
        subst nothing
        have head := first.whole []
        rw [List.append_nil, List.append_nil] at head
        rw [List.append_nil] at second
        have allMissing : more = [] ++ missing := missingParts.symm
        obtain ⟨last, failed⟩ := second.cut allMissing lacking
        exact ⟨last, bind_eq_error.mpr (.inr ⟨a, _, head, failed⟩)⟩
      · obtain ⟨last, failed⟩ := first.cut rfl nothing
        exact ⟨last, bind_eq_error.mpr (.inl failed)⟩

/-- After so many of the bytes the input ends too early. -/
theorem Takes.cut_take (takes : read.Takes start taken a) {count : Nat} (few : count < taken.length) :
    ∃ last, read ⟨start, taken.take count⟩ = .error (.unexpectedEnd (start + count)) last := by
  obtain ⟨last, failed⟩ := takes.cut (List.take_append_drop count taken).symm (by simpa using few)
  rw [List.length_take_of_le few.le] at failed
  exact ⟨last, failed⟩

/-- No other bytes at the start of the same input are taken as a whole. -/
theorem Takes.unique (takes : read.Takes start taken a) {other rest : List UInt8} {b : α}
    (isPrefix : other <+: taken ++ rest)
    (success : read ⟨start, other⟩ = .ok b ⟨start + other.length, []⟩) : other = taken ∧ b = a := by
  rcases List.prefix_or_prefix_of_prefix isPrefix (List.prefix_append taken rest) with
    ⟨missing, parts⟩ | ⟨tail, parts⟩
  · by_cases nothing : missing = []
    · rw [nothing, List.append_nil] at parts
      have whole := takes.whole []
      rw [List.append_nil, ← parts, success] at whole
      injection whole with sameAnswer
      exact ⟨parts, sameAnswer⟩
    · obtain ⟨last, failed⟩ := takes.cut parts.symm nothing
      rw [failed] at success
      cases success
  · have whole := takes.whole tail
    rw [parts, success] at whole
    injection whole with sameAnswer sameStop
    have nothing : tail = [] := (congrArg Cursor.rest sameStop).symm
    rw [nothing, List.append_nil] at parts
    exact ⟨parts.symm, sameAnswer⟩

theorem pure_delimits (a : α) : Delimits (pure a : Read α) := by
  intro cursor next b success
  obtain ⟨rfl, rfl⟩ := pure_eq_ok.mp success
  exact ⟨[], rfl, pure_takes _ _⟩

theorem throw_delimits (failure : ReadError) : Delimits (throw failure : Read α) := by
  intro cursor next a success
  cases success

theorem bind_delimits {next : α → Read β} (first : Delimits read)
    (second : ∀ a, Delimits (next a)) : Delimits (read >>= next) := by
  intro cursor last b success
  obtain ⟨a, ⟨offset, rest⟩, firstRead, secondRead⟩ := bind_eq_ok.mp success
  obtain ⟨taken, parts, takes⟩ := first _ _ _ firstRead
  obtain ⟨more, moreParts, takesMore⟩ := second a _ _ _ secondRead
  -- The first reading has stopped behind the bytes that it takes.
  have stop : offset = cursor.offset + taken.length := by
    have whole := takes.whole rest
    rw [← parts, firstRead] at whole
    injection whole with _ same
    exact congrArg Cursor.offset same
  subst stop
  refine ⟨taken ++ more, ?_, takes.bind takesMore⟩
  rw [parts, moreParts, List.append_assoc]

theorem offset_delimits : Delimits offset := by
  intro cursor next a success
  cases success
  exact ⟨[], rfl, .of_nil fun _ => rfl⟩

end Sequences

theorem byte_delimits : Delimits byte := by
  rintro ⟨start, rest⟩ next letter success
  cases rest with
  | nil => cases success
  | cons first rest =>
    cases success
    exact ⟨[letter], rfl, .cons rfl (fun _ => rfl) (pure_takes _ letter)⟩

theorem bytes_delimits (count : Nat) : Delimits (bytes count) := by
  rintro ⟨start, rest⟩ next data success
  unfold bytes at success
  split at success
  · rename_i enough
    cases success
    have length : (rest.take count).length = count := List.length_take_of_le enough
    refine ⟨rest.take count, (List.take_append_drop count rest).symm, ?_, ?_⟩
    · intro tail
      have accepted := bytes_accepts (rest.take count) start tail
      rwa [length] at accepted ⊢
    · intro short missing parts lacking
      have total := congrArg List.length parts
      have positive := List.length_pos_iff.mpr lacking
      rw [length, List.length_append] at total
      exact ⟨_, if_neg (by dsimp only; omega)⟩
  · cases success

/-- A line that is read ends at the first line feed. -/
theorem of_line_ok {start : Nat} {rest text : List UInt8} {next : Cursor}
    (success : line ⟨start, rest⟩ = .ok text next) :
    rest = text ++ 10 :: next.rest ∧ ∀ letter ∈ text, letter ≠ 10 := by
  have parts : rest.takeWhile (· != 10) ++ rest.dropWhile (· != 10) = rest :=
    List.takeWhile_append_dropWhile
  have stopped := List.head?_dropWhile_not (· != 10) rest
  rw [line_eq] at success
  split at success
  · cases success
  · rename_i feed after behind
    rw [behind] at stopped parts
    have isFeed : feed = 10 := by simpa using stopped
    subst isFeed
    cases success
    exact ⟨parts.symm, fun letter member => by simpa using List.mem_takeWhile_imp member⟩

/-- Without a line feed no line ends. -/
theorem line_unfinished (start : Nat) {short : List UInt8} (noFeed : ∀ letter ∈ short, letter ≠ 10) :
    line ⟨start, short⟩ = .error (.unexpectedEnd (start + short.length)) ⟨start, short⟩ := by
  have nothing : short.dropWhile (· != 10) = [] := by
    rw [List.dropWhile_eq_nil_iff]
    simpa using noFeed
  rw [line_eq, nothing]
  rfl

theorem line_delimits : Delimits line := by
  rintro ⟨start, rest⟩ next text success
  obtain ⟨parts, noFeed⟩ := of_line_ok success
  refine ⟨text ++ [10], ?_, line_accepts noFeed start, ?_⟩
  · rw [parts, List.append_assoc, List.singleton_append]
  · intro short missing cutParts lacking
    -- The feed is the last byte, and so it is among those that are missing.
    have within : ∀ letter ∈ short, letter ≠ 10 := by
      have front := congrArg List.dropLast cutParts
      rw [List.dropLast_concat, List.dropLast_append_of_ne_nil lacking] at front
      exact fun letter member => noFeed letter (front ▸ List.mem_append_left _ member)
    exact ⟨_, line_unfinished start within⟩

end Read

namespace Varint

open Read

theorem wordFrom_takes {start index value offset : Nat} {bytes : List UInt8} {result : UInt64}
    {next : Cursor} (success : wordFrom start index value offset bytes = .ok result next) :
    ∃ taken, bytes = taken ++ next.rest ∧
      Takes (fun cursor => wordFrom start index value cursor.offset cursor.rest) offset taken
        result := by
  induction bytes generalizing index value offset with
  | nil => cases success
  | cons byte rest inductionHypothesis =>
    rw [wordFrom] at success
    dsimp only at success
    split at success
    · cases success
    · rename_i inRange
      split at success
      · rename_i isLast
        cases success
        refine ⟨[byte], rfl, .cons rfl (fun _ => ?_) (pure_takes _ _)⟩
        rw [wordFrom]
        dsimp only
        rw [if_neg inRange, if_pos isLast]
        rfl
      · rename_i goesOn
        obtain ⟨taken, parts, takes⟩ := inductionHypothesis success
        refine ⟨byte :: taken, congrArg (byte :: ·) parts, .cons rfl (fun _ => ?_) takes⟩
        dsimp only
        rw [wordFrom, if_neg inRange, if_neg goesOn]

theorem naturalFrom_takes {index value offset : Nat} {bytes : List UInt8} {result : Nat}
    {next : Cursor} (success : naturalFrom index value offset bytes = .ok result next) :
    ∃ taken, bytes = taken ++ next.rest ∧
      Takes (fun cursor => naturalFrom index value cursor.offset cursor.rest) offset taken
        result := by
  induction bytes generalizing index value offset with
  | nil => cases success
  | cons byte rest inductionHypothesis =>
    rw [naturalFrom] at success
    split at success
    · rename_i isLast
      cases success
      refine ⟨[byte], rfl, .cons rfl (fun _ => ?_) (pure_takes _ _)⟩
      dsimp only
      rw [naturalFrom, if_pos isLast]
      rfl
    · rename_i goesOn
      obtain ⟨taken, parts, takes⟩ := inductionHypothesis success
      refine ⟨byte :: taken, congrArg (byte :: ·) parts, .cons rfl (fun _ => ?_) takes⟩
      dsimp only
      rw [naturalFrom, if_neg goesOn]

theorem word_delimits : word.Delimits := by
  intro cursor next result success
  obtain ⟨taken, parts, takes⟩ := wordFrom_takes success
  exact ⟨taken, parts, takes.whole, takes.cut⟩

theorem natural_delimits : natural.Delimits := by
  intro cursor next result success
  rw [natural_eq] at success
  obtain ⟨taken, parts, takes⟩ := naturalFrom_takes success
  have sum : natural = fun cursor => naturalFrom 0 0 cursor.offset cursor.rest := funext natural_eq
  rw [sum]
  exact ⟨taken, parts, takes⟩

end Varint

end CompiledCode
