import CompiledCode.Bytes.Cursor

/-!
Variable-length numbers: seven bits to a byte, the least significant group first, and the top bit
set on every byte but the last. Words have 64 bits and natural numbers have any size.
-/

namespace CompiledCode.Varint

/-- The bytes of a word. -/
def encodeWord (value : UInt64) : List UInt8 :=
  let group := (value &&& 0x7F).toUInt8
  let higher := value >>> 7
  if higher = 0 then [group] else (group ||| 0x80) :: encodeWord higher
termination_by value.toNat
decreasing_by
  rename_i nonzero
  have shifted : (value >>> 7).toNat = value.toNat / 128 := by
    simp [UInt64.toNat_shiftRight, Nat.shiftRight_eq_div_pow]
  have positive : (value >>> 7).toNat ≠ 0 := fun zero => nonzero (UInt64.toNat_inj.mp zero)
  omega

/-- The groups of seven bits, least significant first. Zero has one group. -/
def groups (value : Nat) : List UInt8 :=
  if value < 128 then [.ofNat value] else .ofNat (value % 128) :: groups (value / 128)

/-- The number that groups spell, least significant first. Without a group it is zero. -/
def valueOf (digits : List UInt8) : Nat :=
  digits.foldr (fun digit value => digit.toNat + 128 * value) 0

/-- The number is spelled by groups of seven bits only: a larger one is no group. -/
def ofGroups? (digits : List UInt8) : Option Nat :=
  if digits.all (· < 128) then some (valueOf digits) else none

/-- The top bit goes onto every group but the last. Without a group there is the byte of zero. -/
def chain : List UInt8 → List UInt8
  | [] => [0]
  | [last] => [last]
  | group :: rest => (group ||| 0x80) :: chain rest

/-- The bytes of a natural number. -/
def encodeNatural (value : Nat) : List UInt8 := chain (groups value)

/-- The groups from position `index` on are added to `value`, as long as the sum has 64 bits. -/
def wordFrom (start index value offset : Nat) : List UInt8 → EStateM.Result ReadError Cursor UInt64
  | [] => .error (.unexpectedEnd offset) ⟨offset, []⟩
  | byte :: rest =>
    let group := byte.toNat % 128
    if (index = 9 ∧ 1 < group) ∨ 9 < index then
      .error (.invalidVarint start) ⟨offset + 1, rest⟩
    else
      let value := value + group * 2 ^ (7 * index)
      if byte.toNat < 128 then .ok (.ofNat value) ⟨offset + 1, rest⟩
      else wordFrom start (index + 1) value (offset + 1) rest

/-- A number of at most 64 bits. -/
def word : Read UInt64 := fun cursor =>
  wordFrom cursor.offset 0 0 cursor.offset cursor.rest

/-- The groups up to the first byte whose top bit is clear, behind others that are in reverse. -/
def groupsFrom (offset : Nat) (reversed : List UInt8) :
    List UInt8 → EStateM.Result ReadError Cursor (List UInt8)
  | [] => .error (.unexpectedEnd offset) ⟨offset, []⟩
  | byte :: rest =>
    let reversed := (byte &&& 0x7F) :: reversed
    if byte < 128 then .ok reversed.reverse ⟨offset + 1, rest⟩
    else groupsFrom (offset + 1) reversed rest

/-- The groups of the number at the front. -/
def frontGroups : Read (List UInt8) := fun cursor => groupsFrom cursor.offset [] cursor.rest

/-- The number whose groups have been read from an offset on. -/
def spelled (start : Nat) (digits : List UInt8) : Read Nat :=
  match ofGroups? digits with
  | some value => pure value
  | none => throw (.invalidVarint start)

/-- A number of any size. -/
def natural : Read Nat := fun cursor => (frontGroups >>= spelled cursor.offset) cursor

/-- A length or a count. -/
def count : Read Nat := UInt64.toNat <$> word

theorem wordFrom_shortens {start index value offset : Nat} {bytes : List UInt8} {result : UInt64}
    {next : Cursor} (success : wordFrom start index value offset bytes = .ok result next) :
    next.rest.length < bytes.length := by
  induction bytes generalizing index value offset with
  | nil => cases success
  | cons byte rest inductionHypothesis =>
    unfold wordFrom at success
    dsimp only at success
    split at success
    · cases success
    · split at success
      · cases success
        exact Nat.lt_succ_self _
      · exact Nat.lt_succ_of_lt (inductionHypothesis success)

theorem groupsFrom_shortens {offset : Nat} {reversed bytes digits : List UInt8} {next : Cursor}
    (success : groupsFrom offset reversed bytes = .ok digits next) :
    next.rest.length < bytes.length := by
  induction bytes generalizing offset reversed with
  | nil => cases success
  | cons byte rest inductionHypothesis =>
    unfold groupsFrom at success
    dsimp only at success
    split at success
    · cases success
      exact Nat.lt_succ_self _
    · exact Nat.lt_succ_of_lt (inductionHypothesis success)

theorem spelled_advances (start : Nat) (digits : List UInt8) : (spelled start digits).Advances := by
  unfold spelled
  split
  · exact Read.pure_advances _
  · exact Read.throw_advances _

theorem natural_shortens {cursor next : Cursor} {number : Nat}
    (success : natural cursor = .ok number next) : next.rest.length < cursor.rest.length := by
  simp only [natural, bind, EStateM.bind] at success
  split at success
  · rename_i digits middle groupsEq
    exact Nat.lt_of_le_of_lt (spelled_advances _ _ _ _ _ success) (groupsFrom_shortens groupsEq)
  · cases success

theorem word_advances : word.Advances := by
  intro cursor next result success
  exact Nat.le_of_lt (wordFrom_shortens success)

theorem natural_advances : natural.Advances := by
  intro cursor next result success
  exact Nat.le_of_lt (natural_shortens success)

theorem count_advances : count.Advances := Read.map_advances _ word_advances

end CompiledCode.Varint
