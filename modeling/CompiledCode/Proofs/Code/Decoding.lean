import Mathlib.Data.List.Induction
import CompiledCode.Proofs.Code.Stream

/-!
Decoding is described by the lists of instructions that the words may stand for: their words come
first, and only an end of the flow lets padding follow. Among such lists decoding finds the one that
all others start with, and when there is none it fails at the first place where it cannot read on.
-/

namespace CompiledCode

namespace Instruction

/-- The instructions paired with their word offsets, the first one at the given offset. -/
def placed (offset : Nat) : List Instruction → List (Nat × Instruction)
  | [] => []
  | first :: rest => (offset, first) :: placed (offset + first.width) rest

theorem map_snd_placed (offset : Nat) (instructions : List Instruction) :
    (placed offset instructions).map (·.2) = instructions := by
  induction instructions generalizing offset with
  | nil => rfl
  | cons first rest inductionHypothesis => rw [placed, List.map_cons, inductionHypothesis]

/-- A placed instruction stands where the words of those before it end. -/
theorem of_mem_placed {start offset : Nat} {instruction : Instruction}
    {instructions : List Instruction} (member : (offset, instruction) ∈ placed start instructions) :
    ∃ before after, instructions = before ++ instruction :: after ∧
      offset = start + (stream before).length := by
  induction instructions generalizing start with
  | nil => cases member
  | cons first rest inductionHypothesis =>
    rcases List.mem_cons.mp member with here | later
    · cases here
      exact ⟨[], rest, rfl, rfl⟩
    · obtain ⟨before, after, parts, atOffset⟩ := inductionHypothesis later
      refine ⟨first :: before, after, by rw [parts, List.cons_append], ?_⟩
      rw [atOffset, stream_cons, List.length_append, length_words]
      omega

/-- No two instructions share a word. -/
theorem placed_apart (start : Nat) (instructions : List Instruction) :
    (placed start instructions).Pairwise fun first second =>
      first.1 + first.2.width ≤ second.1 := by
  induction instructions generalizing start with
  | nil => exact .nil
  | cons first rest inductionHypothesis =>
    refine List.pairwise_cons.mpr ⟨fun entry member => ?_, inductionHypothesis _⟩
    obtain ⟨before, after, _, later⟩ := of_mem_placed member
    rw [later]
    exact Nat.le_add_right _ _

/-- No two instructions stand at the same offset. -/
theorem placed_increasing (start : Nat) (instructions : List Instruction) :
    (placed start instructions).Pairwise fun first second => first.1 < second.1 := by
  refine (placed_apart start instructions).imp fun {first second} apart => ?_
  rw [width] at apart
  omega

/-- The last instruction that is not padding. -/
def lastActive? (instructions : List Instruction) : Option Instruction :=
  (instructions.filter (·.opcode ≠ .noop)).getLast?

/-- The last instruction that is not padding exists and ends the flow of control. -/
def EndsFlow (instructions : List Instruction) : Prop :=
  ∃ last, lastActive? instructions = some last ∧ last.opcode ∈ [.ret, .halt, .raiseExc]

/-- What the decoder knows of the flow after the instructions, if `ended` is what it knew before. -/
def endedAfter (ended : Bool) (instructions : List Instruction) : Bool :=
  instructions.foldl
    (fun ended instruction => if instruction.opcode = .noop then ended else instruction.opcode.endsFlow)
    ended

theorem endedAfter_append (ended : Bool) (before after : List Instruction) :
    endedAfter ended (before ++ after) = endedAfter (endedAfter ended before) after :=
  List.foldl_append

theorem lastActive?_concat (before : List Instruction) (last : Instruction) :
    lastActive? (before ++ [last]) =
      if last.opcode = .noop then lastActive? before else some last := by
  rw [lastActive?, List.filter_append, lastActive?]
  split
  · rename_i isNoop
    simp [isNoop]
  · rename_i isActive
    simp [isActive]

theorem endedAfter_eq (ended : Bool) (instructions : List Instruction) :
    endedAfter ended instructions =
      match lastActive? instructions with
      | some last => last.opcode.endsFlow
      | none => ended := by
  induction instructions using List.reverseRecOn with
  | nil => rfl
  | append_singleton before last inductionHypothesis =>
    rw [endedAfter_append, lastActive?_concat, inductionHypothesis]
    by_cases isNoop : last.opcode = .noop
    · rw [endedAfter, List.foldl_cons, List.foldl_nil, if_pos isNoop, if_pos isNoop]
    · rw [endedAfter, List.foldl_cons, List.foldl_nil, if_neg isNoop, if_neg isNoop]

theorem endedAfter_false_iff (instructions : List Instruction) :
    endedAfter false instructions = true ↔ EndsFlow instructions := by
  rw [endedAfter_eq, EndsFlow]
  cases lastActive? instructions with
  | none => simp
  | some last => simp [Opcode.endsFlow_iff]

/-- The flow stays as it is while there is nothing but padding. -/
theorem endedAfter_noops {instructions : List Instruction}
    (noops : ∀ instruction ∈ instructions, instruction.opcode = .noop) (ended : Bool) :
    endedAfter ended instructions = ended := by
  induction instructions with
  | nil => rfl
  | cons first rest inductionHypothesis =>
    obtain ⟨firstNoop, restNoops⟩ := List.forall_mem_cons.mp noops
    rw [endedAfter, List.foldl_cons, if_pos firstNoop]
    exact inductionHypothesis restNoops

/-- Words that may follow an end of the flow without being instructions. -/
def IsPadding (words : List UInt64) : Prop := (∀ word ∈ words, word = 0) ∨ Unreadable words

/-- The words are the instructions, and what follows them is nothing or padding after an end. -/
def Accepted (words : List UInt64) (instructions : List Instruction) : Prop :=
  (∀ instruction ∈ instructions, instruction.IsWellFormed) ∧
    ∃ rest, words = stream instructions ++ rest ∧
      (rest = [] ∨ EndsFlow instructions ∧ IsPadding rest)

/-- The words are the instructions, where `ended` tells of the flow before them. -/
def AcceptedFrom (ended : Bool) (words : List UInt64) (instructions : List Instruction) : Prop :=
  (∀ instruction ∈ instructions, instruction.IsWellFormed) ∧
    ∃ rest, words = stream instructions ++ rest ∧
      (rest = [] ∨ endedAfter ended instructions = true ∧ IsPadding rest)

theorem acceptedFrom_false_iff (words : List UInt64) (instructions : List Instruction) :
    AcceptedFrom false words instructions ↔ Accepted words instructions := by
  rw [AcceptedFrom, Accepted, endedAfter_false_iff]

section Acceptance

variable {ended : Bool} {words : List UInt64} {first : Instruction}

theorem acceptedFrom_nil_iff :
    AcceptedFrom ended words [] ↔ words = [] ∨ ended = true ∧ IsPadding words := by
  constructor
  · rintro ⟨_, rest, parts, ending⟩
    rw [parts]
    exact ending
  · intro ending
    exact ⟨fun instruction member => (nomatch member), words, rfl, ending⟩

theorem acceptedFrom_cons (wellFormed : first.IsWellFormed) {rest : List Instruction}
    (accepted : AcceptedFrom (endedAfter ended [first]) words rest) :
    AcceptedFrom ended (first.words ++ words) (first :: rest) := by
  obtain ⟨restFits, tail, parts, ending⟩ := accepted
  refine ⟨List.forall_mem_cons.mpr ⟨wellFormed, restFits⟩, tail, ?_, ending⟩
  rw [parts, stream_cons, List.append_assoc]

/-- Where an instruction can be read and no padding starts, all lists go on with it. -/
theorem acceptedFrom_words (wellFormed : first.IsWellFormed)
    (goesOn : ¬ (ended = true ∧ ∀ word ∈ first.words ++ words, word = 0))
    {instructions : List Instruction}
    (accepted : AcceptedFrom ended (first.words ++ words) instructions) :
    ∃ rest, instructions = first :: rest ∧ AcceptedFrom (endedAfter ended [first]) words rest := by
  cases instructions with
  | nil =>
    exfalso
    rcases acceptedFrom_nil_iff.mp accepted with empty | ⟨isEnded, zeros | unreadable⟩
    · cases empty
    · exact goesOn ⟨isEnded, zeros⟩
    · exact not_unreadable_words wellFormed words unreadable
  | cons other rest =>
    obtain ⟨fits, tail, parts, ending⟩ := accepted
    obtain ⟨otherFits, restFits⟩ := List.forall_mem_cons.mp fits
    rw [stream_cons, List.append_assoc] at parts
    obtain ⟨rfl, restParts⟩ := words_append_inj wellFormed otherFits parts
    exact ⟨rest, rfl, restFits, tail, restParts, ending⟩

/-- Words that cannot be read are no list of instructions, or the empty one. -/
theorem acceptedFrom_unreadable (unreadable : Unreadable words) {instructions : List Instruction}
    (accepted : AcceptedFrom ended words instructions) : ended = true := by
  cases instructions with
  | nil =>
    rcases acceptedFrom_nil_iff.mp accepted with rfl | ⟨isEnded, _⟩
    · exact unreadable.elim
    · exact isEnded
  | cons other rest =>
    obtain ⟨fits, tail, rfl, _⟩ := accepted
    rw [stream_cons, List.append_assoc] at unreadable
    exact absurd unreadable (not_unreadable_words (fits other List.mem_cons_self) _)

end Acceptance

end Instruction

namespace CodeBlock

open Instruction

section Steps

variable {ended : Bool} {offset : Nat} {words : List UInt64}

theorem decodeFrom_nil : decodeFrom ended offset [] = .ok ⟨[], .none⟩ := by
  rw [decodeFrom]

theorem decodeFrom_zeros (zeros : ∀ word ∈ words, word = 0) :
    ∃ padding, decodeFrom true offset words = .ok ⟨[], padding⟩ := by
  cases words with
  | nil => exact ⟨_, decodeFrom_nil⟩
  | cons word rest =>
    have allZero : (word :: rest).all (· == 0) = true := by
      rw [List.all_eq_true]
      exact fun value member => beq_iff_eq.mpr (zeros value member)
    rw [decodeFrom, Bool.true_and, if_pos allZero]
    exact ⟨_, rfl⟩

theorem decodeFrom_words {first : Instruction} (wellFormed : first.IsWellFormed)
    (goesOn : ¬ (ended = true ∧ ∀ word ∈ first.words ++ words, word = 0)) :
    decodeFrom ended offset (first.words ++ words) = (do
      let decoded ← decodeFrom (endedAfter ended [first]) (offset + first.width) words
      return { decoded with entries := (offset, first) :: decoded.entries }) := by
  have notPadding : ¬ (ended && (first.words ++ words).all (· == 0)) = true := by
    simpa only [Bool.and_eq_true, List.all_eq_true, beq_iff_eq] using goesOn
  rw [Instruction.words, List.cons_append] at notPadding ⊢
  rw [decodeFrom, if_neg notPadding, read_words wellFormed]
  dsimp only
  rw [List.drop_left]
  rfl

/-- After an end of the flow decoding stops where no instruction can be read. -/
theorem decodeFrom_ended (unreadable : Unreadable words) :
    ∃ padding, decodeFrom true offset words = .ok ⟨[], padding⟩ := by
  cases words with
  | nil => exact unreadable.elim
  | cons word rest =>
    obtain ⟨cause, failed⟩ := read_of_unreadable unreadable offset
    rw [decodeFrom, Bool.true_and, failed]
    split
    · exact ⟨_, rfl⟩
    · exact ⟨_, rfl⟩

/-- Anywhere else it fails there. -/
theorem decodeFrom_stuck {word : UInt64} {rest : List UInt64} {cause : CodeError}
    (failed : Instruction.read offset word rest = .error cause) :
    decodeFrom false offset (word :: rest) = .error cause := by
  rw [decodeFrom, Bool.false_and, if_neg Bool.false_ne_true, failed]
  rfl

end Steps

/--
A result is right for the words from an offset on. A list of instructions has to be accepted, and
all others that are start with it; a failure is the one of the first place that is unreadable.
-/
def Describes (ended : Bool) (offset : Nat) (words : List UInt64) :
    Except CodeError Decoded → Prop
  | .ok decoded =>
    AcceptedFrom ended words decoded.instructions ∧
    decoded.entries = placed offset decoded.instructions ∧
    ∀ others, AcceptedFrom ended words others → decoded.instructions <+: others
  | .error cause =>
    (∀ others, ¬ AcceptedFrom ended words others) ∧
    ∃ before word rest, (∀ instruction ∈ before, instruction.IsWellFormed) ∧
      words = stream before ++ word :: rest ∧
      Instruction.read (offset + (stream before).length) word rest = .error cause

section Descriptions

variable {ended : Bool} {offset : Nat} {words : List UInt64}

theorem describes_empty (accepted : AcceptedFrom ended words []) (padding : Padding) :
    Describes ended offset words (.ok ⟨[], padding⟩) :=
  ⟨accepted, rfl, fun _ _ => List.nil_prefix⟩

theorem describes_words {first : Instruction} (wellFormed : first.IsWellFormed)
    (goesOn : ¬ (ended = true ∧ ∀ word ∈ first.words ++ words, word = 0))
    {result : Except CodeError Decoded}
    (tail : Describes (endedAfter ended [first]) (offset + first.width) words result) :
    Describes ended offset (first.words ++ words) (do
      let decoded ← result
      return { decoded with entries := (offset, first) :: decoded.entries }) := by
  cases result with
  | ok decoded =>
    obtain ⟨accepted, entries, shortest⟩ := tail
    refine ⟨acceptedFrom_cons wellFormed accepted, ?_, ?_⟩
    · exact congrArg ((offset, first) :: ·) entries
    · intro others othersAccepted
      obtain ⟨rest, rfl, restAccepted⟩ := acceptedFrom_words wellFormed goesOn othersAccepted
      exact List.cons_prefix_cons.mpr ⟨rfl, shortest rest restAccepted⟩
  | error cause =>
    obtain ⟨noneAccepted, before, word, rest, fits, parts, failed⟩ := tail
    refine ⟨?_, first :: before, word, rest, List.forall_mem_cons.mpr ⟨wellFormed, fits⟩, ?_, ?_⟩
    · intro others othersAccepted
      obtain ⟨rest, rfl, restAccepted⟩ := acceptedFrom_words wellFormed goesOn othersAccepted
      exact noneAccepted rest restAccepted
    · rw [parts, stream_cons, List.append_assoc]
    · rw [stream_cons, List.length_append, length_words, ← Nat.add_assoc]
      exact failed

end Descriptions

/-- Decoding gives the right result for any words, wherever they stand and whatever precedes them. -/
theorem decodeFrom_describes (ended : Bool) (offset : Nat) (words : List UInt64) :
    Describes ended offset words (decodeFrom ended offset words) := by
  induction words using streamInduction generalizing ended offset with
  | nil =>
    rw [decodeFrom_nil]
    exact describes_empty (acceptedFrom_nil_iff.mpr (.inl rfl)) _
  | stuck words unreadable =>
    cases ended with
    | true =>
      obtain ⟨padding, stopped⟩ := decodeFrom_ended unreadable
      rw [stopped]
      exact describes_empty (acceptedFrom_nil_iff.mpr (.inr ⟨rfl, .inr unreadable⟩)) _
    | false =>
      cases words with
      | nil => exact unreadable.elim
      | cons word rest =>
        obtain ⟨cause, failed⟩ := read_of_unreadable unreadable offset
        rw [decodeFrom_stuck failed]
        refine ⟨fun others accepted => ?_, [], word, rest, fun _ member => (nomatch member), rfl,
          failed⟩
        exact Bool.false_ne_true (acceptedFrom_unreadable unreadable accepted)
  | step first rest wellFormed inductionHypothesis =>
    -- Zero words behind an end could be read as instructions, but decoding stops before them.
    by_cases padded : ended = true ∧ ∀ word ∈ first.words ++ rest, word = 0
    · obtain ⟨rfl, zeros⟩ := padded
      obtain ⟨padding, stopped⟩ := decodeFrom_zeros zeros
      rw [stopped]
      exact describes_empty (acceptedFrom_nil_iff.mpr (.inr ⟨rfl, .inl zeros⟩)) _
    · rw [decodeFrom_words wellFormed padded]
      exact describes_words wellFormed padded (inductionHypothesis _ _)

theorem of_decode_ok {code : CodeBlock} {decoded : Decoded} (success : code.decode = .ok decoded) :
    Accepted code.words decoded.instructions ∧ decoded.entries = placed 0 decoded.instructions := by
  have described := decodeFrom_describes false 0 code.words
  rw [← decode, success] at described
  exact ⟨(acceptedFrom_false_iff _ _).mp described.1, described.2.1⟩

/-- An instruction that stands at an offset of a stream is the one that is found there. -/
theorem instructionAt_stream {code : CodeBlock} {front : List UInt64}
    {instruction : Instruction} (wellFormed : instruction.IsWellFormed) {rest : List UInt64}
    (parts : code.words = front ++ (instruction.words ++ rest)) :
    code.instructionAt front.length = .ok instruction := by
  rw [instructionAt, parts, List.drop_left, Instruction.words, List.cons_append]
  exact read_words wellFormed _ rest

/-- Reading one instruction after another from the start does not get past the offset. -/
def StuckAt (words : List UInt64) (offset : Nat) : Prop :=
  ∃ before rest, (∀ instruction ∈ before, instruction.IsWellFormed) ∧
    words = stream before ++ rest ∧ Unreadable rest ∧ offset = (stream before).length

theorem stuck_unique {before others : List Instruction}
    (fits : ∀ instruction ∈ before, instruction.IsWellFormed)
    (othersFit : ∀ instruction ∈ others, instruction.IsWellFormed) {rest otherRest : List UInt64}
    (unreadable : Unreadable rest) (otherUnreadable : Unreadable otherRest)
    (same : stream before ++ rest = stream others ++ otherRest) : before = others := by
  induction before generalizing others with
  | nil =>
    cases others with
    | nil => rfl
    | cons other _ =>
      change rest = _ at same
      rw [stream_cons, List.append_assoc] at same
      rw [same] at unreadable
      exact absurd unreadable (not_unreadable_words (othersFit other List.mem_cons_self) _)
  | cons first tail inductionHypothesis =>
    obtain ⟨firstFits, tailFits⟩ := List.forall_mem_cons.mp fits
    rw [stream_cons, List.append_assoc] at same
    cases others with
    | nil =>
      change _ = otherRest at same
      rw [← same] at otherUnreadable
      exact absurd otherUnreadable (not_unreadable_words firstFits _)
    | cons other otherTail =>
      obtain ⟨otherFits, otherTailFits⟩ := List.forall_mem_cons.mp othersFit
      rw [stream_cons, List.append_assoc] at same
      obtain ⟨rfl, tailSame⟩ := words_append_inj firstFits otherFits same
      rw [inductionHypothesis tailFits otherTailFits tailSame]

theorem StuckAt.unique {words : List UInt64} {first second : Nat} (firstStuck : StuckAt words first)
    (secondStuck : StuckAt words second) : first = second := by
  obtain ⟨before, rest, fits, parts, unreadable, rfl⟩ := firstStuck
  obtain ⟨others, otherRest, othersFit, otherParts, otherUnreadable, rfl⟩ := secondStuck
  rw [parts] at otherParts
  rw [stuck_unique fits othersFit unreadable otherUnreadable otherParts]

/--
Decoding succeeds on exactly the streams of instructions that may be padded. It gives the one list
that all accepted lists start with, each instruction with the offset at which it is found. Any
failure is that of the one offset at which reading gets stuck.
-/
theorem decode_accepts_padded (code : CodeBlock) :
    ((∃ decoded, code.decode = .ok decoded) ↔
      ∃ instructions, Accepted code.words instructions) ∧
    (∀ decoded, code.decode = .ok decoded →
      Accepted code.words decoded.instructions ∧
      (∀ instructions, Accepted code.words instructions →
        decoded.instructions <+: instructions) ∧
      decoded.entries = placed 0 decoded.instructions ∧
      ∀ offset instruction, (offset, instruction) ∈ decoded.entries →
        code.instructionAt offset = .ok instruction) ∧
    (∀ cause, code.decode = .error cause →
      ∃ offset fault, cause = .undecodable offset fault ∧ StuckAt code.words offset ∧
        (∀ other, StuckAt code.words other → other = offset) ∧
        code.instructionAt offset = .error cause) := by
  have described := decodeFrom_describes false 0 code.words
  rw [← decode] at described
  simp only [← acceptedFrom_false_iff]
  refine ⟨⟨?_, ?_⟩, ?_, ?_⟩
  · rintro ⟨decoded, success⟩
    rw [success] at described
    exact ⟨decoded.instructions, described.1⟩
  · rintro ⟨instructions, accepted⟩
    cases result : code.decode with
    | ok decoded => exact ⟨decoded, rfl⟩
    | error cause =>
      rw [result] at described
      exact absurd accepted (described.1 instructions)
  · intro decoded success
    rw [success] at described
    obtain ⟨accepted, entries, shortest⟩ := described
    refine ⟨accepted, shortest, entries, ?_⟩
    intro offset instruction member
    rw [entries] at member
    obtain ⟨before, after, split, rfl⟩ := of_mem_placed member
    obtain ⟨fits, rest, parts, _⟩ := accepted
    rw [split] at fits parts
    rw [Nat.zero_add]
    have isMember : instruction ∈ before ++ instruction :: after :=
      List.mem_append_right _ List.mem_cons_self
    rw [stream_append, stream_cons, List.append_assoc, List.append_assoc] at parts
    exact instructionAt_stream (fits instruction isMember) parts
  · intro cause failed
    rw [failed] at described
    obtain ⟨_, before, word, rest, fits, parts, readFailed⟩ := described
    rw [Nat.zero_add] at readFailed
    obtain ⟨unreadable, fault, isUndecodable⟩ := of_read_error readFailed
    have stuck : StuckAt code.words (stream before).length :=
      ⟨before, word :: rest, fits, parts, unreadable, rfl⟩
    refine ⟨_, fault, isUndecodable, stuck, fun other otherStuck => otherStuck.unique stuck, ?_⟩
    rw [instructionAt, parts, List.drop_left]
    exact readFailed

/-- Words that are no instruction are padding behind a return and an error in front of one. -/
theorem decode_accepts_padded_return :
    (∃ decoded, decode ⟨[4, 1, 12, 999, 7], 0⟩ = .ok decoded ∧
      decoded.entries = [(0, ⟨.pushInt, [1]⟩), (2, ⟨.ret, []⟩)] ∧
      Accepted [4, 1, 12, 999, 7] decoded.instructions ∧
      instructionAt ⟨[4, 1, 12, 999, 7], 0⟩ 2 = .ok ⟨.ret, []⟩) ∧
    (∃ offset fault, decode ⟨[4, 1, 999], 0⟩ = .error (.undecodable offset fault) ∧
      StuckAt [4, 1, 999] offset) ∧
    ∃ decoded, decode ⟨[12, 0, 0], 0⟩ = .ok decoded := by
  refine ⟨?_, ?_, ?_⟩
  · have success : decode ⟨[4, 1, 12, 999, 7], 0⟩ =
        .ok ⟨[(0, ⟨.pushInt, [1]⟩), (2, ⟨.ret, []⟩)],
          .unreadable 3 (.undecodable 3 (.invalidOpcode 999))⟩ := by cbv
    obtain ⟨accepted, _, _, found⟩ := (decode_accepts_padded _).2.1 _ success
    exact ⟨_, success, rfl, accepted, found 2 _ (by simp)⟩
  · have failed : decode ⟨[4, 1, 999], 0⟩ = .error (.undecodable 2 (.invalidOpcode 999)) := by cbv
    obtain ⟨offset, fault, isUndecodable, stuck, _⟩ := (decode_accepts_padded _).2.2 _ failed
    exact ⟨offset, fault, failed.trans (congrArg _ isUndecodable), stuck⟩
  · have ret : Accepted [12, 0, 0] [⟨.ret, []⟩] :=
      ⟨by decide, [0, 0], rfl, .inr ⟨⟨⟨.ret, []⟩, rfl, by decide⟩, .inl (by simp)⟩⟩
    exact (decode_accepts_padded ⟨[12, 0, 0], 0⟩).1.mpr ⟨_, ret⟩

end CodeBlock

end CompiledCode
