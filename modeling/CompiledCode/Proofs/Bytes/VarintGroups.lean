import CompiledCode.Bytes.Varint
import Mathlib.Tactic.Ring

/-!
A number is read in two steps: its groups are collected, and then they are taken together. The
second step never fails, and the groups may as well be added up while they are read.
-/

namespace CompiledCode.Varint

section Values

theorem toNat_lowest (byte : UInt8) : (byte &&& 0x7F).toNat = byte.toNat % 128 := by
  rw [UInt8.toNat_and]
  exact Nat.and_two_pow_sub_one_eq_mod byte.toNat 7

/-- One more group counts as often as its place says. -/
theorem valueOf_concat (digits : List UInt8) (digit : UInt8) :
    valueOf (digits ++ [digit]) = valueOf digits + digit.toNat * 2 ^ (7 * digits.length) := by
  induction digits with
  | nil => simp [valueOf]
  | cons first rest inductionHypothesis =>
    change first.toNat + 128 * valueOf (rest ++ [digit]) =
      first.toNat + 128 * valueOf rest + digit.toNat * 2 ^ (7 * (rest.length + 1))
    rw [inductionHypothesis, Nat.mul_succ, Nat.pow_add]
    ring

/-- Groups of seven bits spell a number. -/
theorem ofGroups?_of_small {digits : List UInt8} (small : ∀ digit ∈ digits, digit < 128) :
    ofGroups? digits = some (valueOf digits) := by
  have allSmall : digits.all (· < 128) = true := by
    apply List.all_eq_true.mpr
    intro digit member
    exact decide_eq_true (small digit member)
  rw [ofGroups?, if_pos allSmall]

theorem toNat_last {group : Nat} (small : group < 128) : (UInt8.ofNat group).toNat = group :=
  Nat.mod_eq_of_lt (by omega)

theorem small_groups (value : Nat) : ∀ digit ∈ groups value, digit < 128 := by
  induction value using groups.induct with
  | case1 value small =>
    rw [groups, if_pos small]
    intro digit member
    rw [List.mem_singleton.mp member, UInt8.lt_iff_toNat_lt, toNat_last small]
    exact small
  | case2 value large inductionHypothesis =>
    have group : value % 128 < 128 := Nat.mod_lt value (by decide)
    have lowest : UInt8.ofNat (value % 128) < 128 := by
      rw [UInt8.lt_iff_toNat_lt, toNat_last group]
      exact group
    rw [groups, if_neg large]
    exact List.forall_mem_cons.mpr ⟨lowest, inductionHypothesis⟩

theorem valueOf_groups (value : Nat) : valueOf (groups value) = value := by
  induction value using groups.induct with
  | case1 value small =>
    rw [groups, if_pos small]
    simp [valueOf, toNat_last small]
  | case2 value large inductionHypothesis =>
    have group : value % 128 < 128 := Nat.mod_lt value (by decide)
    rw [groups, if_neg large]
    change (UInt8.ofNat (value % 128)).toNat + 128 * valueOf (groups (value / 128)) = value
    rw [inductionHypothesis, toNat_last group]
    omega

/-- The groups of a number spell that number. -/
theorem ofGroups?_groups (value : Nat) : ofGroups? (groups value) = some value := by
  rw [ofGroups?_of_small (small_groups value), valueOf_groups]

end Values

section Reading

/-- The groups from position `index` on are added to `value` as they are read. -/
def naturalFrom (index value offset : Nat) : List UInt8 → EStateM.Result ReadError Cursor Nat
  | [] => .error (.unexpectedEnd offset) ⟨offset, []⟩
  | byte :: rest =>
    let value := value + byte.toNat % 128 * 2 ^ (7 * index)
    if byte.toNat < 128 then .ok value ⟨offset + 1, rest⟩
    else naturalFrom (index + 1) value (offset + 1) rest

variable {reversed bytes digits : List UInt8} {offset : Nat} {next : Cursor}

/-- The bytes without their top bits are groups of seven bits. -/
theorem small_of_groupsFrom (small : ∀ digit ∈ reversed, digit < 128)
    (success : groupsFrom offset reversed bytes = .ok digits next) :
    ∀ digit ∈ digits, digit < 128 := by
  induction bytes generalizing offset reversed with
  | nil => cases success
  | cons byte rest inductionHypothesis =>
    have lowest : byte &&& 0x7F < 128 := by
      rw [UInt8.lt_iff_toNat_lt, toNat_lowest]
      exact Nat.mod_lt _ (by decide)
    have allSmall : ∀ digit ∈ (byte &&& 0x7F) :: reversed, digit < 128 :=
      List.forall_mem_cons.mpr ⟨lowest, small⟩
    unfold groupsFrom at success
    dsimp only at success
    split at success
    · cases success
      intro digit member
      exact allSmall digit (List.mem_reverse.mp member)
    · exact inductionHypothesis allSmall success

/-- No number is missed for its groups: what is read as groups spells a number. -/
theorem spelled_eq_pure {cursor : Cursor} (success : frontGroups cursor = .ok digits next)
    (start : Nat) : spelled start digits = pure (valueOf digits) := by
  rw [spelled, ofGroups?_of_small (small_of_groupsFrom (List.forall_mem_nil _) success)]

/-- The sum of the groups so far goes on as the groups do. -/
theorem naturalFrom_groupsFrom (reversed bytes : List UInt8) (offset : Nat) :
    naturalFrom reversed.length (valueOf reversed.reverse) offset bytes =
      match groupsFrom offset reversed bytes with
      | .ok digits next => .ok (valueOf digits) next
      | .error failure next => .error failure next := by
  induction bytes generalizing reversed offset with
  | nil => rfl
  | cons byte rest inductionHypothesis =>
    have added : valueOf reversed.reverse + byte.toNat % 128 * 2 ^ (7 * reversed.length) =
        valueOf ((byte &&& 0x7F) :: reversed).reverse := by
      rw [List.reverse_cons, valueOf_concat, List.length_reverse, toNat_lowest]
    rw [naturalFrom, groupsFrom, added]
    by_cases isLast : byte.toNat < 128
    · have isLastByte : byte < 128 := isLast
      rw [if_pos isLast, if_pos isLastByte]
    · have goesOn : ¬ byte < 128 := isLast
      rw [if_neg isLast, if_neg goesOn]
      exact inductionHypothesis ((byte &&& 0x7F) :: reversed) (offset + 1)

/-- A number is read as the sum of its groups, and the groups are never refused. -/
theorem natural_eq (cursor : Cursor) :
    natural cursor = naturalFrom 0 0 cursor.offset cursor.rest := by
  have sum := naturalFrom_groupsFrom [] cursor.rest cursor.offset
  change naturalFrom 0 0 cursor.offset cursor.rest = _ at sum
  rw [sum]
  simp only [natural, bind, EStateM.bind]
  cases collected : frontGroups cursor with
  | ok digits next =>
    have found : groupsFrom cursor.offset [] cursor.rest = .ok digits next := collected
    rw [found]
    exact congrFun (spelled_eq_pure collected cursor.offset) next
  | error failure next =>
    have failed : groupsFrom cursor.offset [] cursor.rest = .error failure next := collected
    rw [failed]

end Reading

end CompiledCode.Varint
