import CompiledCode.Proofs.Listing.Partition

/-!
What separators and a comment behind a line do to its tokens. They keep the tokens, except for a
last token that ends in a blank: at the end of a line or at a comment the token loses its blanks,
and at a separator it keeps them.
-/

namespace CompiledCode

theorem Text.trimEnd_concat_ne {c : Char} (blank : isBlank c = true) (text : List Char) :
    trimEnd (text ++ [c]) ≠ text ++ [c] := by
  have dropped : trimEnd (text ++ [c]) = trimEnd text := by simp [trimEnd, dropEndWhile, blank]
  have isFront := trimEnd_prefix text
  have shorter := isFront.length_le
  intro same
  rw [dropped] at same
  rw [same, List.length_append, List.length_singleton] at shorter
  omega

namespace Listing

section Tokens

variable {line separators comment : List Char} {found : List Token}

/-- The line has no comment and ends in a blank that does not separate tokens. -/
def EndsInBlank (line : List Char) : Prop :=
  IsUncommented line ∧ ∃ c ∈ line.getLast?, Text.isBlank c = true ∧ isSeparator c = false

theorem tokensFrom_separators (areSeparators : ∀ c ∈ separators, isSeparator c = true)
    (isComment : IsComment comment) (column : Nat) :
    tokensFrom column .between (separators ++ comment) = .ok [] := by
  induction separators generalizing column with
  | nil => exact tokensFrom_comment isComment
  | cons c rest inductionHypothesis =>
    obtain ⟨separates, restSeparators⟩ := List.forall_mem_cons.mp areSeparators
    rw [List.cons_append, tokensFrom_separator separates]
    exact inductionHypothesis restSeparators _

/-- A token loses something at the end of the line just if it ends in a blank. -/
theorem lastToken_eq_iff {start : Nat} {c : Char} {reversed : List Char} :
    lastToken start (c :: reversed) = [⟨start, (c :: reversed).reverse⟩] ↔
      Text.isBlank c = false := by
  rw [lastToken, List.reverse_cons]
  constructor
  · intro same
    rw [← Bool.not_eq_true]
    intro blank
    split at same
    · cases same
    · have sameText := congrArg Token.text (List.singleton_inj.mp same)
      exact Text.trimEnd_concat_ne blank _ sameText
  · intro notBlank
    rw [Text.trimEnd_concat notBlank]
    simp

/-- A token does not end in a separator, since between quotes the last character closes them. -/
theorem IsWhole.isSeparator_last {text : List Char} {c : Char} (isWhole : IsWhole (text ++ [c])) :
    isSeparator c = false := by
  have closed := isWhole.closed
  rw [quotingAfter_concat] at closed
  cases quoting : quotingAfter text with
  | outside => exact (isWhole.unbroken text c [] rfl quoting).2
  | inside =>
    rw [quoting, Quoting.next] at closed
    split at closed
    · rename_i isMark
      rw [isMark]
      decide
    · split at closed <;> cases closed
  | escaped =>
    rw [quoting] at closed
    cases closed

variable {front : List Char} {state : LineState} {column : Nat}

/-- The end of the line and a separator leave the same last token unless it ends in a blank. -/
theorem Scanned.ended_eq_parted_iff (scanned : Scanned front found state column)
    (isOutside : state.quoting = .outside) : state.ended = state.parted ↔
      ∀ c ∈ (front ++ state.text).getLast?, Text.isBlank c = true → isSeparator c = true := by
  cases state with
  | between =>
    rw [LineState.text, List.append_nil]
    exact ⟨fun _ c isLast _ => scanned.apart c isLast, fun _ => rfl⟩
  | word start reversed =>
    cases reversed with
    | nil => exact absurd rfl scanned.opened
    | cons c reversed =>
      have isWhole : IsWhole (reversed.reverse ++ [c]) := by
        rw [← List.reverse_cons]
        exact ⟨by simp, scanned.agrees.quoting, scanned.agrees.unbroken⟩
      have noSeparator := isWhole.isSeparator_last
      rw [LineState.ended, LineState.parted, lastToken_eq_iff, LineState.text, List.reverse_cons,
        ← List.append_assoc, List.getLast?_concat]
      simp [noSeparator]
  | quoted => exact absurd isOutside (LineState.quoting_quoted _ _ _)

/-- The tokens of a line with separators and a comment behind it. -/
theorem IsScan.tokens_behind {rest : List Char}
    (scan : IsScan line front found state column rest) (isOutside : state.quoting = .outside)
    (areSeparators : ∀ c ∈ separators, isSeparator c = true) (isComment : IsComment comment) :
    tokens (line ++ separators ++ comment) =
      .ok (found ++ if separators = [] ∨ rest ≠ [] then state.ended else state.parted) := by
  have parts : line ++ separators ++ comment =
      front ++ state.text ++ (rest ++ separators ++ comment) := by
    rw [scan.parts]
    simp
  rw [parts, scan.goesOn]
  cases rest with
  | cons c rest =>
    have starts : IsComment (c :: rest ++ separators ++ comment) := scan.isComment
    rw [tokensFrom_ended isOutside starts, if_pos (.inr (List.cons_ne_nil _ _))]
    rfl
  | nil =>
    cases separators with
    | nil =>
      rw [List.append_nil, List.nil_append, tokensFrom_ended isOutside isComment,
        if_pos (.inl rfl)]
      rfl
    | cons c separators =>
      obtain ⟨separates, areRest⟩ := List.forall_mem_cons.mp areSeparators
      rw [List.nil_append, List.cons_append, tokensFrom_parted isOutside separates,
        tokensFrom_separators areRest isComment, if_neg (by simp)]
      simp

theorem IsScan.endsInBlank_iff {rest : List Char}
    (scan : IsScan line front found state column rest) (isOutside : state.quoting = .outside) :
    EndsInBlank line ↔ rest = [] ∧ state.ended ≠ state.parted := by
  rw [ne_eq, scan.scanned.ended_eq_parted_iff isOutside]
  constructor
  · rintro ⟨uncommented, c, isLast, blank, noSeparator⟩
    obtain rfl := scan.comment_eq_nil uncommented
    rw [scan.parts, List.append_nil] at isLast
    refine ⟨rfl, fun allSeparate => ?_⟩
    rw [allSeparate c isLast blank] at noSeparator
    cases noSeparator
  · rintro ⟨rfl, someBlank⟩
    push Not at someBlank
    obtain ⟨c, isLast, blank, noSeparator⟩ := someBlank
    rw [scan.parts, List.append_nil]
    exact ⟨scan.uncommented, c, isLast, blank, by simpa using noSeparator⟩

/-- Only a word is left differently by a separator and by the end of the line. -/
theorem LineState.exists_of_ended_ne {state : LineState} (differs : state.ended ≠ state.parted) :
    ∃ start text, state.parted = [⟨start, text⟩] ∧ state.ended = lastToken start text.reverse := by
  cases state with
  | between | quoted => exact absurd rfl differs
  | word start reversed =>
    refine ⟨start, reversed.reverse, rfl, ?_⟩
    rw [List.reverse_reverse]
    rfl

end Tokens

section Listings

theorem Outline.addLine_eq_of_tokens {first second : List Char}
    (same : tokens first = tokens second) (outline : Outline) (line : Nat) :
    outline.addLine line first = outline.addLine line second := by
  rw [addLine, addLine, same]

theorem foldlM_addLine_eq {first second : List (List Char)}
    (same : first.map tokens = second.map tokens) (start : Nat) (outline : Outline) :
    (first.zipIdx start).foldlM
        (fun outline (text, index) => outline.addLine (index + 1) text) outline =
      (second.zipIdx start).foldlM
        (fun outline (text, index) => outline.addLine (index + 1) text) outline := by
  induction first generalizing second start outline with
  | nil =>
    obtain rfl := List.map_eq_nil_iff.mp same.symm
    rfl
  | cons text first inductionHypothesis =>
    cases second with
    | nil => cases same
    | cons other second =>
      obtain ⟨sameText, sameRest⟩ := List.cons.inj same
      rw [List.zipIdx_cons, List.zipIdx_cons, List.foldlM_cons, List.foldlM_cons]
      dsimp only
      rw [Outline.addLine_eq_of_tokens sameText]
      exact bind_congr fun next => inductionHypothesis sameRest (start + 1) next

/-- A listing is assembled from the tokens of its lines. -/
theorem assemble_eq_of_tokens {first second : String}
    (same : (Text.lines first.toList).map tokens = (Text.lines second.toList).map tokens) :
    assemble first = assemble second := by
  have sameOutline : outlineOf first = outlineOf second :=
    foldlM_addLine_eq same 0 ⟨0, [], []⟩
  rw [assemble, assemble, sameOutline]

variable {line separators comment : List Char} {found : List Token}

/--
Separators and a comment behind an accepted line keep it accepted. They keep its tokens, and the
code of every listing with the line, unless there are separators and the line ends in another blank:
then the last token, which has no blanks at its end otherwise, keeps them.
-/
theorem tokens_behind_line (accepted : tokens line = .ok found)
    (areSeparators : ∀ c ∈ separators, isSeparator c = true) (isComment : IsComment comment) :
    ∃ others, tokens (line ++ separators ++ comment) = .ok others ∧
      (separators ≠ [] ∧ EndsInBlank line → others ≠ found ∧ ∃ kept column text,
        others = kept ++ [⟨column, text⟩] ∧ found = kept ++ lastToken column text.reverse) ∧
      (¬ (separators ≠ [] ∧ EndsInBlank line) → others = found ∧
        ∀ (source changed : String) before after,
          Text.lines source.toList = before ++ line :: after →
          Text.lines changed.toList = before ++ (line ++ separators ++ comment) :: after →
          assemble changed = assemble source) := by
  obtain ⟨front, complete, state, column, rest, scan⟩ := exists_scan line
  obtain ⟨isOutside, rfl⟩ := scan.eq_of_ok accepted
  have behind := scan.tokens_behind isOutside areSeparators isComment
  refine ⟨_, behind, ?_, fun keeps => ?_⟩
  · rintro ⟨someSeparator, endsInBlank⟩
    obtain ⟨rfl, differs⟩ := (scan.endsInBlank_iff isOutside).mp endsInBlank
    rw [if_neg (by simp [someSeparator])]
    obtain ⟨start, text, parted, ended⟩ := LineState.exists_of_ended_ne differs
    exact ⟨fun same => differs (List.append_cancel_left same).symm, complete, start, text,
      by rw [parted], by rw [ended]⟩
  · have same : (if separators = [] ∨ rest ≠ [] then state.ended else state.parted) =
        state.ended := by
      rw [scan.endsInBlank_iff isOutside] at keeps
      split
      · rfl
      · rename_i separated
        push Not at separated keeps
        exact (keeps separated.1 separated.2).symm
    rw [same] at behind ⊢
    refine ⟨rfl, fun source changed before after sourceLines changedLines => ?_⟩
    apply assemble_eq_of_tokens
    rw [sourceLines, changedLines]
    simp only [List.map_append, List.map_cons, accepted, behind]

/-- A no-break space at the end of a line is lost, and kept where a blank is behind it. -/
theorem tokens_behind_line_noBreakSpace :
    tokens ['r', 'e', 't', '\u00A0'] = .ok [⟨1, ['r', 'e', 't']⟩] ∧
      ∃ others, tokens (['r', 'e', 't', '\u00A0'] ++ [' '] ++ ['#']) = .ok others ∧
        others ≠ [⟨1, ['r', 'e', 't']⟩] := by
  have accepted : tokens ['r', 'e', 't', '\u00A0'] = .ok [⟨1, ['r', 'e', 't']⟩] := by decide
  have noSign : '#' ∉ ['r', 'e', 't', '\u00A0'] := by decide
  have uncommented : IsUncommented ['r', 'e', 't', '\u00A0'] := by
    intro before after parts
    exact absurd (parts ▸ List.mem_append_right _ List.mem_cons_self) noSign
  have endsInBlank : EndsInBlank ['r', 'e', 't', '\u00A0'] :=
    ⟨uncommented, '\u00A0', rfl, by decide, by decide⟩
  have areSeparators : ∀ c ∈ [' '], isSeparator c = true := by simp [isSeparator]
  have isComment : IsComment ['#'] := by simp [IsComment]
  obtain ⟨others, success, differs, _⟩ := tokens_behind_line accepted areSeparators isComment
  exact ⟨accepted, others, success, (differs ⟨List.cons_ne_nil _ _, endsInBlank⟩).1⟩

end Listings

end Listing

end CompiledCode
