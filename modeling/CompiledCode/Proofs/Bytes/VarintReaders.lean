import CompiledCode.Proofs.Bytes.VarintGroups
import Mathlib.Data.Nat.Bitwise

/-!
Both readers of numbers take the same bytes for a number: those up to and including the first whose
top bit is clear. The reader of words gives up where the groups no longer have 64 bits, and apart
from that it does what the reader of natural numbers does, errors included.
-/

namespace CompiledCode.Varint

/-- The bytes of the number at the front, up to and including the first whose top bit is clear. -/
def varint? (bytes : List UInt8) : Option (List UInt8) :=
  (bytes.findIdx? fun byte => byte.toNat < 128).map fun last => bytes.take (last + 1)

/-- The number that groups of seven bits are worth, the least significant first. -/
def groupsValue : List UInt8 → Nat
  | [] => 0
  | byte :: rest => byte.toNat % 128 + 128 * groupsValue rest

/-- Behind so many bytes that have the top bit set stands a byte that passes the test. -/
def StandsBehind (count : Nat) (test : UInt8 → Prop) (bytes : List UInt8) : Prop :=
  ∃ continued byte tail, bytes = continued ++ byte :: tail ∧ continued.length = count ∧
    (∀ each ∈ continued, 128 ≤ each.toNat) ∧ test byte

section Fronts

variable {byte : UInt8} {rest front : List UInt8}

theorem varint?_last (isLast : byte.toNat < 128) : varint? (byte :: rest) = some [byte] := by
  simp [varint?, List.findIdx?_cons, isLast]

theorem varint?_continued (continued : 128 ≤ byte.toNat) :
    varint? (byte :: rest) = (varint? rest).map (byte :: ·) := by
  have notLast : ¬ byte.toNat < 128 := by omega
  simp [varint?, List.findIdx?_cons, notLast, Function.comp_def]

theorem ne_nil_of_varint? (isFront : varint? rest = some front) : front ≠ [] ∧ rest ≠ [] := by
  cases rest with
  | nil => simp [varint?] at isFront
  | cons byte rest =>
    obtain ⟨last, _, rfl⟩ := Option.map_eq_some_iff.mp isFront
    simp

variable {test : UInt8 → Prop} {count : Nat}

theorem not_standsBehind_nil : ¬ StandsBehind count test [] := by
  simp [StandsBehind]

theorem standsBehind_zero : StandsBehind 0 test (byte :: rest) ↔ test byte := by
  constructor
  · intro ⟨continued, first, tail, parts, nothing, _, passes⟩
    obtain rfl := List.length_eq_zero_iff.mp nothing
    obtain ⟨rfl, rfl⟩ := List.cons.inj parts
    exact passes
  · intro passes
    exact ⟨[], byte, rest, rfl, rfl, by simp, passes⟩

theorem standsBehind_succ :
    StandsBehind (count + 1) test (byte :: rest) ↔
      128 ≤ byte.toNat ∧ StandsBehind count test rest := by
  constructor
  · intro ⟨continued, other, tail, parts, length, each, passes⟩
    obtain ⟨first, more, rfl⟩ := List.exists_cons_of_length_eq_add_one length
    obtain ⟨rfl, rfl⟩ := List.cons.inj parts
    obtain ⟨firstContinued, moreContinued⟩ := List.forall_mem_cons.mp each
    exact ⟨firstContinued, more, other, tail, rfl, by simpa using length, moreContinued, passes⟩
  · intro ⟨firstContinued, continued, other, tail, parts, length, each, passes⟩
    exact ⟨byte :: continued, other, tail, by simp [parts], by simp [length],
      List.forall_mem_cons.mpr ⟨firstContinued, each⟩, passes⟩

end Fronts

/--
From a position on, the groups do not fit into a word: the tenth group has more than one bit, or
there is an eleventh.
-/
def IsTooLongFrom (index : Nat) (bytes : List UInt8) : Prop :=
  StandsBehind (9 - index) (fun tenth => 1 < tenth.toNat % 128) bytes ∨
    StandsBehind (10 - index) (fun _ => True) bytes

section TooLong

variable {byte : UInt8} {rest : List UInt8} {index : Nat}

theorem isTooLongFrom_tenth : IsTooLongFrom 9 (byte :: rest) ↔
    1 < byte.toNat % 128 ∨ 128 ≤ byte.toNat ∧ rest ≠ [] := by
  have another : StandsBehind 0 (fun _ => True) rest ↔ rest ≠ [] := by
    cases rest with
    | nil => simp [not_standsBehind_nil]
    | cons => simp [standsBehind_zero]
  rw [IsTooLongFrom, standsBehind_zero, standsBehind_succ, another]

theorem isTooLongFrom_cons (early : index < 9) : IsTooLongFrom index (byte :: rest) ↔
    128 ≤ byte.toNat ∧ IsTooLongFrom (index + 1) rest := by
  have ninth : 9 - index = 9 - (index + 1) + 1 := by omega
  have tenth : 10 - index = 10 - (index + 1) + 1 := by omega
  rw [IsTooLongFrom, ninth, tenth, standsBehind_succ, standsBehind_succ, IsTooLongFrom]
  exact and_or_left.symm

/-- A number is too long when it has more than ten groups or more than 64 bits. -/
theorem isTooLongFrom_iff {bytes front : List UInt8} (inRange : index ≤ 9)
    (isFront : varint? bytes = some front) :
    IsTooLongFrom index bytes ↔
      10 - index < front.length ∨ 2 ^ (64 - 7 * index) ≤ groupsValue front := by
  induction bytes generalizing index front with
  | nil => simp [varint?] at isFront
  | cons byte rest inductionHypothesis =>
    by_cases isLast : byte.toNat < 128
    · rw [varint?_last isLast] at isFront
      obtain rfl := Option.some.inj isFront
      simp only [List.length_singleton, groupsValue, Nat.mul_zero, Nat.add_zero]
      by_cases early : index < 9
      · have room : 2 ^ 8 ≤ 2 ^ (64 - 7 * index) := Nat.pow_le_pow_right (by decide) (by omega)
        rw [isTooLongFrom_cons early]
        omega
      · obtain rfl : index = 9 := by omega
        rw [isTooLongFrom_tenth]
        omega
    · have continued : 128 ≤ byte.toNat := by omega
      rw [varint?_continued continued] at isFront
      obtain ⟨others, isOthers, rfl⟩ := Option.map_eq_some_iff.mp isFront
      simp only [List.length_cons, groupsValue]
      by_cases early : index < 9
      · have power : 2 ^ (64 - 7 * index) = 128 * 2 ^ (64 - 7 * (index + 1)) := by
          rw [show 64 - 7 * index = 7 + (64 - 7 * (index + 1)) by omega, Nat.pow_add]
        rw [isTooLongFrom_cons early, inductionHypothesis (by omega) isOthers, power]
        omega
      · obtain rfl : index = 9 := by omega
        obtain ⟨othersFilled, restFilled⟩ := ne_nil_of_varint? isOthers
        have filled := List.length_pos_iff.mpr othersFilled
        simp [isTooLongFrom_tenth, continued, restFilled]
        omega

end TooLong

section Readers

/-- The reader of natural numbers takes the varint, and it fails at the end when there is none. -/
theorem naturalFrom_eq (index value offset : Nat) (bytes : List UInt8) :
    (∀ front, varint? bytes = some front → naturalFrom index value offset bytes =
      .ok (value + groupsValue front * 2 ^ (7 * index))
        ⟨offset + front.length, bytes.drop front.length⟩) ∧
    (varint? bytes = none → naturalFrom index value offset bytes =
      .error (.unexpectedEnd (offset + bytes.length)) ⟨offset + bytes.length, []⟩) := by
  induction bytes generalizing index value offset with
  | nil => simp [varint?, naturalFrom]
  | cons byte rest inductionHypothesis =>
    rw [naturalFrom]
    by_cases isLast : byte.toNat < 128
    · simp [varint?_last isLast, isLast, groupsValue]
    · obtain ⟨found, unfinished⟩ := inductionHypothesis (index + 1)
        (value + byte.toNat % 128 * 2 ^ (7 * index)) (offset + 1)
      simp only [varint?_continued (Nat.le_of_not_lt isLast), if_neg isLast]
      constructor
      · intro front isFront
        obtain ⟨others, isOthers, rfl⟩ := Option.map_eq_some_iff.mp isFront
        have total : value + byte.toNat % 128 * 2 ^ (7 * index) +
            groupsValue others * 2 ^ (7 * (index + 1)) =
              value + groupsValue (byte :: others) * 2 ^ (7 * index) := by
          rw [groupsValue, Nat.mul_succ, Nat.pow_add]
          ring
        rw [found others isOthers, total, List.length_cons, Nat.add_right_comm, Nat.add_assoc]
        rfl
      · intro noFront
        rw [unfinished (Option.map_eq_none_iff.mp noFront), List.length_cons, Nat.add_right_comm,
          Nat.add_assoc]

/-- The same result with the number as a word. -/
def asWord : EStateM.Result ReadError Cursor Nat → EStateM.Result ReadError Cursor UInt64
  | .ok number next => .ok (.ofNat number) next
  | .error failure next => .error failure next

theorem wordFrom_of_isTooLong {index : Nat} (inRange : index ≤ 9) {bytes : List UInt8}
    (tooLong : IsTooLongFrom index bytes) (start value offset : Nat) :
    ∃ next, wordFrom start index value offset bytes = .error (.invalidVarint start) next := by
  induction bytes generalizing index value offset with
  | nil =>
    rcases tooLong with impossible | impossible <;>
    exact absurd impossible not_standsBehind_nil
  | cons byte rest inductionHypothesis =>
    rw [wordFrom]
    by_cases early : index < 9
    · obtain ⟨continued, more⟩ := (isTooLongFrom_cons early).mp tooLong
      have accepted : ¬ ((index = 9 ∧ 1 < byte.toNat % 128) ∨ 9 < index) := by omega
      simp only [if_neg accepted, if_neg (Nat.not_lt_of_le continued)]
      exact inductionHypothesis (by omega) more _ _
    · obtain rfl : index = 9 := by omega
      rw [isTooLongFrom_tenth] at tooLong
      by_cases large : 1 < byte.toNat % 128
      · simp [large]
      · obtain ⟨continued, another⟩ := tooLong.resolve_left large
        obtain ⟨eleventh, tail, rfl⟩ := List.exists_cons_of_ne_nil another
        simp [large, Nat.not_lt_of_le continued, wordFrom]

/-- Where the groups fit into a word, the two readers give the same result. -/
theorem wordFrom_of_not_isTooLong {index : Nat} (inRange : index ≤ 9) {bytes : List UInt8}
    (fits : ¬ IsTooLongFrom index bytes) (start value offset : Nat) :
    wordFrom start index value offset bytes = asWord (naturalFrom index value offset bytes) := by
  induction bytes generalizing index value offset with
  | nil => rfl
  | cons byte rest inductionHypothesis =>
    have accepted : ¬ ((index = 9 ∧ 1 < byte.toNat % 128) ∨ 9 < index) := by
      intro refused
      obtain ⟨rfl, large⟩ := refused.resolve_right (by omega)
      exact fits (isTooLongFrom_tenth.mpr (.inl large))
    rw [wordFrom, naturalFrom]
    simp only [if_neg accepted]
    by_cases isLast : byte.toNat < 128
    · simp [isLast, asWord]
    · simp only [if_neg isLast]
      by_cases early : index < 9
      · rw [isTooLongFrom_cons early] at fits
        apply inductionHypothesis (by omega)
        intro more
        exact fits ⟨by omega, more⟩
      · -- Ten groups are read, so that nothing but the end of the bytes can follow.
        obtain rfl : index = 9 := by omega
        rw [isTooLongFrom_tenth] at fits
        have noMore : rest = [] := by
          apply Classical.byContradiction
          intro another
          exact fits (.inr ⟨by omega, another⟩)
        simp [noMore, wordFrom, naturalFrom, asWord]

end Readers

section Register

/-- A shift in a register of 64 bits. By more than 63 places there is none. -/
def shifted? (value : UInt64) (places : Nat) : Option UInt64 :=
  if places ≤ 63 then some (value <<< .ofNat places) else none

/-- The groups of a word, each shifted to its place and joined with the others bit by bit. -/
def registerFrom (start shift offset : Nat) (register : UInt64) :
    List UInt8 → Option (EStateM.Result ReadError Cursor UInt64)
  | [] => some (.error (.unexpectedEnd offset) ⟨offset, []⟩)
  | byte :: rest =>
    let bits := (byte &&& 0x7F).toUInt64
    if (shift = 63 ∧ 1 < bits) ∨ 63 < shift then
      some (.error (.invalidVarint start) ⟨offset + 1, rest⟩)
    else do
      let group ← shifted? bits shift
      if byte &&& 0x80 = 0 then some (.ok (register ||| group) ⟨offset + 1, rest⟩)
      else registerFrom start (shift + 7) (offset + 1) (register ||| group) rest

theorem toNat_bits (byte : UInt8) : (byte &&& 0x7F).toUInt64.toNat = byte.toNat % 128 := by
  rw [UInt8.toNat_toUInt64, UInt8.toNat_and]
  exact Nat.and_two_pow_sub_one_eq_mod byte.toNat 7

/-- The top bit is clear in the bytes below 128. -/
theorem topBit_eq_zero_iff (byte : UInt8) : byte &&& 0x80 = 0 ↔ byte.toNat < 128 := by
  have inRange := byte.toNat_lt
  have topBit : (byte &&& 0x80).toNat = 128 * (byte.toNat / 128) := by
    rw [UInt8.toNat_and]
    change byte.toNat &&& 2 ^ 7 = _
    rw [Nat.and_two_pow, Nat.testBit_eq_decide_div_mod_eq]
    by_cases large : byte.toNat / 128 = 1
    · simp [large]
    · have small : byte.toNat / 128 = 0 := by omega
      simp [small]
  rw [← UInt8.toNat_inj, topBit]
  change 128 * (byte.toNat / 128) = 0 ↔ _
  omega

/-- A group joins those below it without a carry. -/
theorem join_shifted {register bits : UInt64} {shift : Nat} (places : shift ≤ 63)
    (below : register.toNat < 2 ^ shift) (fits : bits.toNat * 2 ^ shift < 2 ^ 64) :
    (register ||| bits <<< .ofNat shift).toNat = register.toNat + bits.toNat * 2 ^ shift := by
  have small : (UInt64.ofNat shift).toNat % 64 = shift := by
    rw [UInt64.toNat_ofNat']
    omega
  rw [UInt64.toNat_or, UInt64.toNat_shiftLeft, small, Nat.shiftLeft_eq, Nat.mod_eq_of_lt fits,
    Nat.or_comm, Nat.mul_comm, ← Nat.two_pow_add_eq_or_of_lt below, Nat.add_comm]

/-- The register holds the sum of the groups so far, and no shift is by more than 63 places. -/
theorem registerFrom_eq {index : Nat} {register : UInt64}
    (below : index ≤ 9 → register.toNat < 2 ^ (7 * index)) (start offset : Nat)
    (bytes : List UInt8) :
    registerFrom start (7 * index) offset register bytes =
      some (wordFrom start index register.toNat offset bytes) := by
  induction bytes generalizing index register offset with
  | nil => rfl
  | cons byte rest inductionHypothesis =>
    have bits := toNat_bits byte
    have refused : (7 * index = 63 ∧ 1 < (byte &&& 0x7F).toUInt64) ∨ 63 < 7 * index ↔
        (index = 9 ∧ 1 < byte.toNat % 128) ∨ 9 < index := by
      rw [UInt64.lt_iff_toNat_lt, bits]
      change (_ ∧ 1 < _) ∨ _ ↔ _
      omega
    rw [registerFrom, wordFrom]
    simp only [refused, topBit_eq_zero_iff]
    split
    · rfl
    · rename_i accepted
      have inRange : index ≤ 9 := by omega
      have group : byte.toNat % 128 * 2 ^ (7 * index) < 2 ^ 64 := by
        by_cases early : index < 9
        · have power : 2 ^ (7 * index) ≤ 2 ^ 56 := Nat.pow_le_pow_right (by decide) (by omega)
          have product := Nat.mul_le_mul (show byte.toNat % 128 ≤ 127 by omega) power
          omega
        · obtain rfl : index = 9 := by omega
          omega
      have joined := join_shifted (show 7 * index ≤ 63 by omega) (below inRange) (bits ▸ group)
      rw [bits] at joined
      have places : shifted? (byte &&& 0x7F).toUInt64 (7 * index) =
          some ((byte &&& 0x7F).toUInt64 <<< .ofNat (7 * index)) := if_pos (by omega)
      rw [places, ← joined]
      change (if _ then _ else _) = _
      split
      · rw [UInt64.ofNat_toNat]
      · change registerFrom start (7 * (index + 1)) _ _ _ = _
        apply inductionHypothesis
        intro _
        have product := Nat.mul_le_mul_right (2 ^ (7 * index))
          (show byte.toNat % 128 ≤ 127 by omega)
        have earlier := below inRange
        rw [joined, Nat.mul_succ, Nat.pow_add]
        omega

end Register

section Outcomes

variable {bytes front : List UInt8} {start : Nat}

theorem natural_of_varint? (isFront : varint? (bytes.drop start) = some front) :
    natural (.startingAt bytes start) =
      .ok (groupsValue front) (.startingAt bytes (start + front.length)) := by
  rw [natural_eq, Cursor.startingAt, (naturalFrom_eq 0 0 start _).1 front isFront, List.drop_drop]
  simp [Cursor.startingAt]

theorem natural_of_no_varint (noFront : varint? (bytes.drop start) = none) :
    natural (.startingAt bytes start) = .error (.unexpectedEnd (max start bytes.length))
      (.startingAt bytes (max start bytes.length)) := by
  have stop : start + (bytes.drop start).length = max start bytes.length := by
    rw [List.length_drop]
    omega
  have nothing : bytes.drop (max start bytes.length) = [] :=
    List.drop_eq_nil_of_le (Nat.le_max_right _ _)
  rw [natural_eq, Cursor.startingAt, (naturalFrom_eq 0 0 start _).2 noFront, stop]
  simp [Cursor.startingAt, nothing]

theorem word_of_isTooLong (tooLong : IsTooLongFrom 0 (bytes.drop start)) :
    ∃ next, word (.startingAt bytes start) = .error (.invalidVarint start) next :=
  wordFrom_of_isTooLong (Nat.zero_le 9) tooLong start 0 start

theorem word_of_not_isTooLong (fits : ¬ IsTooLongFrom 0 (bytes.drop start)) :
    word (.startingAt bytes start) = asWord (natural (.startingAt bytes start)) := by
  rw [natural_eq]
  exact wordFrom_of_not_isTooLong (Nat.zero_le 9) fits start 0 start

theorem natural_eq_ok_iff (number : Nat) (next : Cursor) :
    natural (.startingAt bytes start) = .ok number next ↔
      ∃ front, varint? (bytes.drop start) = some front ∧ number = groupsValue front ∧
        next = .startingAt bytes (start + front.length) := by
  cases found : varint? (bytes.drop start) with
  | none => simp [natural_of_no_varint found]
  | some front => simp [natural_of_varint? found, eq_comm]

theorem natural_eq_error_iff (failure : ReadError) (next : Cursor) :
    natural (.startingAt bytes start) = .error failure next ↔
      varint? (bytes.drop start) = none ∧ failure = .unexpectedEnd (max start bytes.length) ∧
        next = .startingAt bytes (max start bytes.length) := by
  cases found : varint? (bytes.drop start) with
  | none => simp [natural_of_no_varint found, eq_comm]
  | some front => simp [natural_of_varint? found]

/-- A word is read exactly where the number has at most ten groups and 64 bits. -/
theorem word_eq_ok_iff (number : UInt64) (next : Cursor) :
    word (.startingAt bytes start) = .ok number next ↔
      ∃ front, varint? (bytes.drop start) = some front ∧
        front.length ≤ 10 ∧ groupsValue front < 2 ^ 64 ∧ number.toNat = groupsValue front ∧
        next = .startingAt bytes (start + front.length) := by
  by_cases tooLong : IsTooLongFrom 0 (bytes.drop start)
  · obtain ⟨stop, failed⟩ := word_of_isTooLong tooLong
    rw [failed]
    constructor
    · intro success
      cases success
    · intro ⟨front, isFront, _, _, _⟩
      have large := (isTooLongFrom_iff (Nat.zero_le 9) isFront).mp tooLong
      omega
  · rw [word_of_not_isTooLong tooLong]
    cases found : varint? (bytes.drop start) with
    | none => simp [natural_of_no_varint found, asWord]
    | some front =>
      rw [isTooLongFrom_iff (Nat.zero_le 9) found] at tooLong
      have small : groupsValue front < 2 ^ 64 := by omega
      have same : number = .ofNat (groupsValue front) ↔ number.toNat = groupsValue front := by
        rw [← UInt64.toNat_inj, UInt64.toNat_ofNat', Nat.mod_eq_of_lt small]
      have short : front.length ≤ 10 := by omega
      simp [natural_of_varint? found, asWord, same, small, short, eq_comm]

theorem word_invalid_iff :
    (∃ next, word (.startingAt bytes start) = .error (.invalidVarint start) next) ↔
      IsTooLongFrom 0 (bytes.drop start) := by
  constructor
  · intro ⟨next, failed⟩
    apply Classical.byContradiction
    intro fits
    rw [word_of_not_isTooLong fits] at failed
    cases found : varint? (bytes.drop start) with
    | none => simp [natural_of_no_varint found, asWord] at failed
    | some front => simp [natural_of_varint? found, asWord] at failed
  · exact word_of_isTooLong

/-- A word that is not invalid fails as the natural number does. -/
theorem natural_fails_of_word {failure : ReadError} {next : Cursor}
    (failed : word (.startingAt bytes start) = .error failure next) :
    failure = .invalidVarint start ∨ natural (.startingAt bytes start) = .error failure next := by
  by_cases tooLong : IsTooLongFrom 0 (bytes.drop start)
  · obtain ⟨stop, invalid⟩ := word_of_isTooLong tooLong
    rw [invalid] at failed
    cases failed
    exact .inl rfl
  · rw [word_of_not_isTooLong tooLong] at failed
    cases result : natural (.startingAt bytes start) with
    | ok number stop => simp [result, asWord] at failed
    | error cause stop =>
      right
      simpa [result, asWord] using failed

end Outcomes

/--
Both readers take the bytes up to and including the first whose top bit is clear, and their answer
is the sum of the groups. The reader of natural numbers has an answer for every such number, and it
fails at the end of the bytes only. The reader of words has one for the numbers of at most ten
groups and 64 bits. It calls a number invalid when the tenth group has more than one bit or an
eleventh is there, fails otherwise as the other reader does, and joins the groups in a register
without a shift by more than 63 places.
-/
theorem readers_agree (bytes : List UInt8) (start : Nat) :
    let cursor := Cursor.startingAt bytes start
    (∀ number next, natural cursor = .ok number next ↔
      ∃ front, varint? (bytes.drop start) = some front ∧ number = groupsValue front ∧
        next = Cursor.startingAt bytes (start + front.length)) ∧
    (∀ failure next, natural cursor = .error failure next ↔
      varint? (bytes.drop start) = none ∧ failure = .unexpectedEnd (max start bytes.length) ∧
        next = Cursor.startingAt bytes (max start bytes.length)) ∧
    (∀ number next, word cursor = .ok number next ↔
      ∃ front, varint? (bytes.drop start) = some front ∧
        front.length ≤ 10 ∧ groupsValue front < 2 ^ 64 ∧ number.toNat = groupsValue front ∧
        next = Cursor.startingAt bytes (start + front.length)) ∧
    ((∃ next, word cursor = .error (.invalidVarint start) next) ↔
      StandsBehind 9 (fun tenth => 1 < tenth.toNat % 128) (bytes.drop start) ∨
        StandsBehind 10 (fun _ => True) (bytes.drop start)) ∧
    (∀ failure next, word cursor = .error failure next →
      failure = .invalidVarint start ∨ natural cursor = .error failure next) ∧
    registerFrom start 0 start 0 (bytes.drop start) = some (word cursor) := by
  intro cursor
  refine ⟨natural_eq_ok_iff, natural_eq_error_iff, word_eq_ok_iff, word_invalid_iff, ?_, ?_⟩
  · intro failure next failed
    exact natural_fails_of_word failed
  · exact @registerFrom_eq 0 0 (fun _ => by decide) start start (bytes.drop start)

/-- The largest word behind another byte, a tenth group of two bits, and the end of the bytes. -/
theorem readers_agree_tenth :
    let largest := 7 :: List.replicate 9 0xFF ++ [1, 5]
    let tooLarge := List.replicate 9 0xFF ++ [2]
    word (.startingAt largest 1) = .ok 0xFFFFFFFFFFFFFFFF (.startingAt largest 11) ∧
    (∃ next, word (.startingAt tooLarge 0) = .error (.invalidVarint 0) next) ∧
    natural (.startingAt largest 20) = .error (.unexpectedEnd 20) (.startingAt largest 20) := by
  intro largest tooLarge
  refine ⟨?_, ?_, ?_⟩
  · apply ((readers_agree largest 1).2.2.1 _ _).mpr
    exact ⟨List.replicate 9 0xFF ++ [1], by decide, by decide, by decide, by decide, rfl⟩
  · apply (readers_agree tooLarge 0).2.2.2.1.mpr
    exact .inl ⟨List.replicate 9 0xFF, 2, [], rfl, rfl, by simp, by decide⟩
  · apply ((readers_agree largest 20).2.1 _ _).mpr
    exact ⟨by decide, rfl, rfl⟩

end CompiledCode.Varint
