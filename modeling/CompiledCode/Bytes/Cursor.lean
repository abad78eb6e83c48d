import CompiledCode.Bytes.ReadError

namespace CompiledCode

/-- A place in a byte buffer: the bytes before it are counted and the bytes after it are kept. -/
structure Cursor where
  offset : Nat
  rest : List UInt8
  deriving DecidableEq, Repr

/-- A read gives an answer or an error, and in both cases the cursor it leaves. -/
abbrev Read (α : Type) := EStateM ReadError Cursor α

namespace Cursor

def ofBytes (bytes : List UInt8) : Cursor := ⟨0, bytes⟩

/-- The offset may lie past the end, and then nothing is left to read. -/
def startingAt (bytes : List UInt8) (offset : Nat) : Cursor := ⟨offset, bytes.drop offset⟩

/-- The offset of the end of the buffer. -/
def limit (cursor : Cursor) : Nat := cursor.offset + cursor.rest.length

def remaining (cursor : Cursor) : Nat := cursor.rest.length

def isEmpty (cursor : Cursor) : Bool := cursor.rest.isEmpty

end Cursor

namespace Read

/-- The next byte. -/
def byte : Read UInt8 := fun cursor =>
  match cursor.rest with
  | [] => .error (.unexpectedEnd cursor.limit) cursor
  | first :: rest => .ok first ⟨cursor.offset + 1, rest⟩

/-- Exactly the next `count` bytes. -/
def bytes (count : Nat) : Read (List UInt8) := fun cursor =>
  if count ≤ cursor.rest.length then
    .ok (cursor.rest.take count) ⟨cursor.offset + count, cursor.rest.drop count⟩
  else .error (.unexpectedEnd cursor.limit) cursor

/-- The bytes before the next line feed, which is passed over. -/
def line : Read (List UInt8) := fun cursor =>
  let text := cursor.rest.takeWhile (· != 10)
  match cursor.rest.drop text.length with
  | [] => .error (.unexpectedEnd cursor.limit) cursor
  | _ :: rest => .ok text ⟨cursor.offset + text.length + 1, rest⟩

end Read

/-- A read that succeeds does not move the cursor back. -/
def Read.Advances {α : Type} (read : Read α) : Prop :=
  ∀ (cursor next : Cursor) (a : α), read cursor = .ok a next →
    next.rest.length ≤ cursor.rest.length

namespace Read

theorem byte_shortens {cursor next : Cursor} {first : UInt8}
    (success : byte cursor = .ok first next) : next.rest.length < cursor.rest.length := by
  unfold byte at success
  split at success
  · cases success
  · rename_i rest restEq
    cases success
    simp [restEq]

theorem bytes_advances (count : Nat) : (bytes count).Advances := by
  intro cursor next taken success
  unfold bytes at success
  split at success
  · cases success
    simp
  · cases success

theorem line_advances : line.Advances := by
  intro cursor next text success
  unfold line at success
  dsimp only at success
  split at success
  · cases success
  · rename_i first rest dropEq
    cases success
    have total := congrArg List.length dropEq
    simp only [List.length_drop, List.length_cons] at total
    dsimp only
    omega

theorem pure_advances {α : Type} (a : α) : Read.Advances (pure a : Read α) := by
  intro cursor next result success
  cases success
  exact Nat.le_refl _

theorem throw_advances {α : Type} (failure : ReadError) :
    Read.Advances (throw failure : Read α) := by
  intro cursor next result success
  cases success

theorem bind_advances {α β : Type} {read : Read α} {next : α → Read β}
    (first : read.Advances) (second : ∀ a, (next a).Advances) :
    Read.Advances (read >>= next) := by
  intro cursor last result success
  simp only [bind, EStateM.bind] at success
  split at success
  · rename_i a middle readEq
    exact Nat.le_trans (second a _ _ _ success) (first _ _ _ readEq)
  · cases success

theorem map_advances {α β : Type} {read : Read α} (f : α → β) (advances : read.Advances) :
    Read.Advances (f <$> read) := by
  intro cursor last result success
  simp only [Functor.map, EStateM.map] at success
  split at success
  · rename_i a next readEq
    cases success
    exact advances _ _ _ readEq
  · cases success

end Read

end CompiledCode
