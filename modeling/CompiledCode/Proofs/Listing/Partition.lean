import CompiledCode.Proofs.Listing.ByteScan

/-!
The tokens of a line are parts of it, in order and apart from each other, and what is left of the
line are separators, the blanks at its end and a comment. A line has no tokens just if it ends
between quotes.
-/

namespace CompiledCode

/-- What is dropped from the end of a text are blanks. -/
theorem Text.exists_trimEnd (text : List Char) :
    ∃ blanks, text = trimEnd text ++ blanks ∧ ∀ c ∈ blanks, isBlank c = true := by
  refine ⟨(text.reverse.takeWhile isBlank).reverse, ?_, ?_⟩
  · rw [trimEnd, dropEndWhile, ← List.reverse_append, List.takeWhile_append_dropWhile,
      List.reverse_reverse]
  · intro c member
    exact List.mem_takeWhile_imp (List.mem_reverse.mp member)

namespace Listing

section Endings

theorem IsUnbroken.of_append {text rest : List Char} (unbroken : IsUnbroken (text ++ rest)) :
    IsUnbroken text := by
  rintro before c after rfl isOutside
  exact unbroken before c (after ++ rest) (by simp) isOutside

variable {front text : List Char} {found : List Token} {state : LineState} {column : Nat}

/-- Blanks behind a text do not close its quotes. -/
theorem outside_of_blanks {blanks : List Char} (areBlank : ∀ c ∈ blanks, Text.isBlank c = true)
    (isOutside : quotingAfter (text ++ blanks) = .outside) : quotingAfter text = .outside := by
  rw [quotingAfter, List.foldl_append] at isOutside
  refine outside_of_foldl_next ?_ isOutside
  intro member
  exact absurd (areBlank _ member) (by decide)

/-- At the end of the line the token that is open is whole without its blanks. -/
theorem Scanned.spaced_ended (scanned : Scanned front found state column)
    (isOutside : state.quoting = .outside) : ∃ body blanks,
      front ++ state.text = body ++ blanks ∧ Spaced body (found ++ state.ended) ∧
        ∀ c ∈ blanks, Text.isBlank c = true := by
  cases state with
  | between =>
    refine ⟨front, [], rfl, ?_, by simp⟩
    rw [LineState.ended, List.append_nil]
    exact scanned.spaced
  | word start reversed =>
    obtain rfl := scanned.agrees.start start rfl
    obtain ⟨blanks, parts, areBlank⟩ := Text.exists_trimEnd reversed.reverse
    rw [LineState.text, LineState.ended, lastToken]
    by_cases nothing : Text.trimEnd reversed.reverse = []
    · rw [nothing, List.nil_append] at parts
      refine ⟨front, blanks, by rw [parts], ?_, areBlank⟩
      rw [nothing, List.isEmpty_nil, if_pos rfl, List.append_nil]
      exact scanned.spaced
    · have closed := scanned.agrees.quoting
      have unbroken := scanned.agrees.unbroken
      rw [LineState.text, parts] at closed unbroken
      refine ⟨front ++ Text.trimEnd reversed.reverse, blanks, ?_, ?_, areBlank⟩
      · rw [List.append_assoc, ← parts]
      · rw [List.isEmpty_eq_false_iff.mpr nothing, if_neg Bool.false_ne_true]
        exact .token scanned.spaced scanned.apart
          ⟨nothing, outside_of_blanks areBlank closed, unbroken.of_append⟩
  | quoted => exact absurd isOutside (LineState.quoting_quoted _ _ _)

/-- An accepted line is tokens and separators, then blanks, then nothing or a comment. -/
theorem exists_spaced {line : List Char} (success : tokens line = .ok found) :
    ∃ body blanks comment, line = body ++ blanks ++ comment ∧ Spaced body found ∧
      (∀ c ∈ blanks, Text.isBlank c = true) ∧ IsComment comment ∧
      IsUncommented (body ++ blanks) ∧ quotingAfter (body ++ blanks) = .outside := by
  obtain ⟨front, complete, state, column, comment, scan⟩ := exists_scan line
  obtain ⟨isOutside, rfl⟩ := scan.eq_of_ok success
  obtain ⟨body, blanks, parts, spaced, areBlank⟩ := scan.scanned.spaced_ended isOutside
  have uncommented := scan.uncommented
  have closed := scan.quoting.trans isOutside
  rw [parts] at uncommented closed
  exact ⟨body, blanks, comment, by rw [scan.parts, parts], spaced, areBlank, scan.isComment,
    uncommented, closed⟩

/-- A line is refused just if it ends between quotes. -/
theorem tokens_refused_iff (line : List Char) : (∃ column, tokens line = .error column) ↔
    IsUncommented line ∧ quotingAfter line ≠ .outside := by
  obtain ⟨front, complete, state, column, comment, scan⟩ := exists_scan line
  constructor
  · rintro ⟨start, failure⟩
    have isInside : state.quoting ≠ .outside := by
      intro isOutside
      rw [scan.tokens_ok isOutside] at failure
      cases failure
    obtain ⟨rfl, _⟩ := scan.tokens_error isInside
    rw [scan.parts, List.append_nil, scan.quoting]
    exact ⟨scan.uncommented, isInside⟩
  · rintro ⟨uncommented, isInside⟩
    obtain rfl := scan.comment_eq_nil uncommented
    rw [scan.parts, List.append_nil, scan.quoting] at isInside
    exact (scan.tokens_error isInside).2

end Endings

section Partitions

variable {body : List Char} {found : List Token}

/-- The byte at an index, counted from zero, belongs to the token. -/
def Token.Covers (token : Token) (index : Nat) : Prop :=
  token.column ≤ index + 1 ∧ index + 1 < token.column + byteCount token.text

namespace Spaced

theorem isWhole (spaced : Spaced body found) : ∀ token ∈ found, IsWhole token.text := by
  induction spaced with
  | nil => exact List.forall_mem_nil _
  | separator _ _ inductionHypothesis => exact inductionHypothesis
  | token _ _ isWhole inductionHypothesis =>
    exact List.forall_mem_append.mpr
      ⟨inductionHypothesis, List.forall_mem_singleton.mpr isWhole⟩

theorem within (spaced : Spaced body found) :
    ∀ token ∈ found, token.column + byteCount token.text ≤ 1 + byteCount body := by
  induction spaced with
  | nil => exact List.forall_mem_nil _
  | separator _ _ inductionHypothesis =>
    intro token member
    have shorter := inductionHypothesis token member
    rw [byteCount_append]
    omega
  | token _ _ _ inductionHypothesis =>
    refine List.forall_mem_append.mpr ⟨fun token member => ?_, List.forall_mem_singleton.mpr ?_⟩
    · have shorter := inductionHypothesis token member
      rw [byteCount_append]
      omega
    · rw [byteCount_append, Nat.add_assoc]

/-- A token ends in front of the next one. -/
theorem ordered (spaced : Spaced body found) :
    found.Pairwise fun first second => first.column + byteCount first.text ≤ second.column := by
  induction spaced with
  | nil => exact .nil
  | separator _ _ inductionHypothesis => exact inductionHypothesis
  | token before _ _ inductionHypothesis =>
    refine List.pairwise_append.mpr ⟨inductionHypothesis, List.pairwise_singleton _ _, ?_⟩
    intro first member
    exact List.forall_mem_singleton.mpr (before.within first member)

/-- A byte belongs to a token or is a separator. -/
theorem covered (spaced : Spaced body found) {index : Nat} {byte : UInt8}
    (isByte : (body.flatMap String.utf8EncodeChar)[index]? = some byte) :
    (∃ token ∈ found, token.Covers index) ∨ isSeparatorByte byte = true := by
  induction spaced with
  | nil => cases isByte
  | @separator text found c before separates inductionHypothesis =>
    rw [List.flatMap_append] at isByte
    by_cases earlier : index < (text.flatMap String.utf8EncodeChar).length
    · rw [List.getElem?_append_left earlier] at isByte
      exact inductionHypothesis isByte
    · obtain ⟨only, encoded, _, same, _⟩ := exists_byte (ascii_of_isSeparator separates)
      rw [List.getElem?_append_right (Nat.le_of_not_lt earlier), List.flatMap_singleton,
        encoded] at isByte
      obtain rfl := List.mem_singleton.mp (List.mem_of_getElem? isByte)
      exact .inr (same.trans separates)
  | @token front text found before _ _ inductionHypothesis =>
    by_cases earlier : index < byteCount front
    · rw [List.flatMap_append, List.getElem?_append_left earlier] at isByte
      rcases inductionHypothesis isByte with ⟨token, member, covers⟩ | separates
      · exact .inl ⟨token, List.mem_append_left _ member, covers⟩
      · exact .inr separates
    · have bound : index < byteCount (front ++ text) := (List.getElem?_eq_some_iff.mp isByte).1
      rw [byteCount_append] at bound
      refine .inl ⟨⟨1 + byteCount front, text⟩, by simp, ?_, ?_⟩
      · dsimp only
        omega
      · dsimp only
        omega

end Spaced

/--
The tokens are slices of the line that are whole, in order and apart. Every other byte is a
separator, or belongs to blanks in front of the end of the line or of the comment, or to the
comment, which starts at the first number sign outside of quotes.
-/
structure IsPartition (line : List Char) (found : List Token) : Prop where
  whole : ∀ token ∈ found, IsWhole token.text
  sliced : ∀ token ∈ found, ∃ first, token.column = first + 1 ∧
    Text.Utf8.slice? (line.flatMap String.utf8EncodeChar) first (first + byteCount token.text) =
      some token.text
  ordered : found.Pairwise fun first second =>
    first.column + byteCount first.text ≤ second.column
  covered : ∃ body blanks comment, line = body ++ blanks ++ comment ∧
    (∀ token ∈ found, token.column + byteCount token.text ≤ 1 + byteCount body) ∧
    (∀ (index : Nat) (byte : UInt8),
      (body.flatMap String.utf8EncodeChar)[index]? = some byte →
        (∃ token ∈ found, token.Covers index) ∨ isSeparatorByte byte = true) ∧
    (∀ c ∈ blanks, Text.isBlank c = true) ∧ IsComment comment ∧
    IsUncommented (body ++ blanks) ∧ quotingAfter (body ++ blanks) = .outside

theorem isPartition {line : List Char} (success : tokens line = .ok found) :
    IsPartition line found := by
  obtain ⟨body, blanks, comment, parts, spaced, rest⟩ := exists_spaced success
  refine ⟨spaced.isWhole, ?_, spaced.ordered, body, blanks, comment, parts, spaced.within,
    fun _ _ => spaced.covered, rest⟩
  intro token member
  have located := tokens_isLocated line
  rw [success] at located
  obtain ⟨before, after, rfl, column, _⟩ := located token member
  have sliced := Text.Utf8.slice?_part before token.text after
  have last : ((before ++ token.text).flatMap String.utf8EncodeChar).length =
      byteCount before + byteCount token.text := byteCount_append before token.text
  rw [last] at sliced
  exact ⟨byteCount before, column.trans (Nat.add_comm _ _), sliced⟩

/--
A line has the tokens that are cut out of its bytes, and no cut is inside of a character. The tokens
of an accepted line partition it, and a line is refused exactly if it ends between quotes without a
number sign outside of quotes in front.
-/
theorem tokens_partition (line : List Char) :
    scanBytes (line.flatMap String.utf8EncodeChar) 0 ⟨none, 0, .outside⟩
      (line.flatMap String.utf8EncodeChar) = some (tokens line) ∧
    (∀ found, tokens line = .ok found → IsPartition line found) ∧
    ((∃ column, tokens line = .error column) ↔
      IsUncommented line ∧ quotingAfter line ≠ .outside) :=
  ⟨scanBytes_eq line, fun _ => isPartition, tokens_refused_iff line⟩

/-- Characters of more than one byte, a number sign between quotes, a blank and a comment. -/
theorem tokens_partition_wide :
    tokens ['é', ' ', '"', 'ü', '#', '"', '\u00A0', '#'] =
        .ok [⟨1, ['é']⟩, ⟨4, ['"', 'ü', '#', '"']⟩] ∧
      IsPartition ['é', ' ', '"', 'ü', '#', '"', '\u00A0', '#']
        [⟨1, ['é']⟩, ⟨4, ['"', 'ü', '#', '"']⟩] := by
  have accepted : tokens ['é', ' ', '"', 'ü', '#', '"', '\u00A0', '#'] =
      .ok [⟨1, ['é']⟩, ⟨4, ['"', 'ü', '#', '"']⟩] := by decide
  exact ⟨accepted, (tokens_partition _).2.1 _ accepted⟩

end Partitions

end Listing

end CompiledCode
