import CompiledCode.Proofs.Listing.Columns
import CompiledCode.Proofs.Listing.Tokens

/-!
A line is scanned from left to right. What a character does to the state depends on whether it
stands between quotes, and in front of the comment every text can be scanned by itself: it leaves
the tokens that are complete, and a state from which the rest of the line goes on.
-/

namespace CompiledCode.Listing

section Steps

/-- The token that is open, if there is one, where a separator follows. -/
def LineState.parted : LineState → List Token
  | word start reversed => [⟨start, reversed.reverse⟩]
  | between | quoted _ _ _ => []

/-- The token that is open, if there is one, where the line or a comment ends it. -/
def LineState.ended : LineState → List Token
  | word start reversed => lastToken start reversed
  | between | quoted _ _ _ => []

variable {state : LineState} {column : Nat} {c : Char} {rest : List Char}

theorem LineState.quoting_quoted (start : Nat) (reversed : List Char) (escaped : Bool) :
    (quoted start reversed escaped).quoting ≠ .outside := by
  cases escaped <;> simp [quoting]

/-- Outside of quotes a character starts a comment or separates, or it goes on with the token. -/
theorem LineState.char_cases (state : LineState) (c : Char) :
    (state.quoting = .outside ∧ c = '#') ∨ (state.quoting = .outside ∧ isSeparator c = true) ∨
      (state.quoting = .outside → c ≠ '#' ∧ isSeparator c = false) := by
  by_cases isOutside : state.quoting = .outside
  · by_cases isSign : c = '#'
    · exact .inl ⟨isOutside, isSign⟩
    · cases separates : isSeparator c with
      | true => exact .inr (.inl ⟨isOutside, rfl⟩)
      | false => exact .inr (.inr fun _ => ⟨isSign, rfl⟩)
  · exact .inr (.inr fun here => absurd here isOutside)

theorem tokensFrom_nil (isOutside : state.quoting = .outside) :
    tokensFrom column state [] = .ok state.ended := by
  cases state with
  | between | word => rfl
  | quoted => exact absurd isOutside (LineState.quoting_quoted _ _ _)

theorem tokensFrom_unclosed (isInside : state.quoting ≠ .outside) :
    ∃ start, tokensFrom column state [] = .error start := by
  cases state with
  | between | word => exact absurd rfl isInside
  | quoted start => exact ⟨start, rfl⟩

theorem tokensFrom_numberSign (isOutside : state.quoting = .outside) :
    tokensFrom column state ('#' :: rest) = .ok state.ended := by
  cases state with
  | between | word => rw [tokensFrom, if_pos rfl]; rfl
  | quoted => exact absurd isOutside (LineState.quoting_quoted _ _ _)

/-- The line or a comment ends the token that is open. -/
theorem tokensFrom_ended {comment : List Char} (isOutside : state.quoting = .outside)
    (isComment : IsComment comment) : tokensFrom column state comment = .ok state.ended := by
  cases comment with
  | nil => exact tokensFrom_nil isOutside
  | cons c rest =>
    obtain rfl := isComment c rfl
    exact tokensFrom_numberSign isOutside

/-- A separator completes the token that is open. -/
theorem tokensFrom_parted (isOutside : state.quoting = .outside)
    (separates : isSeparator c = true) :
    tokensFrom column state (c :: rest) =
      (state.parted ++ ·) <$> tokensFrom (column + c.utf8Size) .between rest := by
  have noComment := ne_comment_of_isSeparator separates
  cases state with
  | between =>
    rw [tokensFrom_separator separates]
    exact (id_map _).symm
  | word start reversed =>
    rw [tokensFrom, if_neg noComment, if_pos separates]
    rfl
  | quoted => exact absurd isOutside (LineState.quoting_quoted _ _ _)

/-- Any other character goes on with the token or opens one. -/
theorem tokensFrom_push (goesOn : state.quoting = .outside → c ≠ '#' ∧ isSeparator c = false) :
    tokensFrom column state (c :: rest) =
      tokensFrom (column + c.utf8Size) (state.push column c) rest := by
  cases state with
  | between | word =>
    obtain ⟨noComment, noSeparator⟩ := goesOn rfl
    rw [tokensFrom, if_neg noComment, if_neg (by simp [noSeparator])]
  | quoted => rw [tokensFrom]

end Steps

section Comments

/-- From a quoting on, every number sign of the text stands between quotes. -/
def IsUncommentedFrom (quoting : Quoting) (text : List Char) : Prop :=
  ∀ before after, text = before ++ '#' :: after → before.foldl Quoting.next quoting ≠ .outside

/-- No comment starts in the text. -/
abbrev IsUncommented (text : List Char) : Prop := IsUncommentedFrom .outside text

variable {quoting : Quoting} {c : Char} {text rest : List Char}

theorem isUncommentedFrom_nil (quoting : Quoting) : IsUncommentedFrom quoting [] := by
  intro before after parts
  simp at parts

theorem isUncommentedFrom_cons : IsUncommentedFrom quoting (c :: rest) ↔
    (c = '#' → quoting ≠ .outside) ∧ IsUncommentedFrom (quoting.next c) rest := by
  constructor
  · intro uncommented
    constructor
    · rintro rfl
      exact uncommented [] rest rfl
    · intro before after parts
      exact uncommented (c :: before) after (by rw [parts, List.cons_append])
  · rintro ⟨first, others⟩ before after parts
    cases before with
    | nil => exact first (List.cons.inj parts).1
    | cons d before =>
      obtain ⟨rfl, restParts⟩ := List.cons.inj parts
      exact others before after restParts

/-- A line is a text without a comment and then nothing, or a number sign outside of quotes. -/
theorem exists_comment (quoting : Quoting) (line : List Char) : ∃ body comment,
    line = body ++ comment ∧ IsUncommentedFrom quoting body ∧ IsComment comment ∧
      (comment ≠ [] → body.foldl Quoting.next quoting = .outside) := by
  induction line generalizing quoting with
  | nil => exact ⟨[], [], rfl, isUncommentedFrom_nil _, by simp [IsComment], by simp⟩
  | cons c rest inductionHypothesis =>
    by_cases starts : c = '#' ∧ quoting = .outside
    · obtain ⟨rfl, rfl⟩ := starts
      exact ⟨[], '#' :: rest, rfl, isUncommentedFrom_nil _, by simp [IsComment], fun _ => rfl⟩
    · obtain ⟨body, comment, rfl, uncommented, isComment, isOutside⟩ :=
        inductionHypothesis (quoting.next c)
      refine ⟨c :: body, comment, rfl, isUncommentedFrom_cons.mpr ⟨?_, uncommented⟩, isComment,
        isOutside⟩
      intro isSign here
      exact starts ⟨isSign, here⟩

/-- Without a mark no quotes are closed. -/
theorem outside_of_foldl_next (noMark : '"' ∉ text)
    (isOutside : text.foldl Quoting.next quoting = .outside) : quoting = .outside := by
  induction text generalizing quoting with
  | nil => exact isOutside
  | cons c rest inductionHypothesis =>
    obtain ⟨notMark, restNoMark⟩ := not_or.mp (List.mem_cons.not.mp noMark)
    have before := inductionHypothesis restNoMark isOutside
    cases quoting with
    | outside => rfl
    | inside =>
      rw [Quoting.next, if_neg (Ne.symm notMark)] at before
      split at before <;> cases before
    | escaped => cases before

end Comments

section Scans

/-- A token by itself: something, with its quotes closed, that nothing in it ends. -/
structure IsWhole (text : List Char) : Prop where
  filled : text ≠ []
  closed : quotingAfter text = .outside
  unbroken : IsUnbroken text

/--
A text is made of tokens and separators, from the first byte of a line on. In front of every token
is nothing or a separator.
-/
inductive Spaced : List Char → List Token → Prop where
  | nil : Spaced [] []
  | separator {text : List Char} {found : List Token} {c : Char} (before : Spaced text found)
    (separates : isSeparator c = true) : Spaced (text ++ [c]) found
  | token {front text : List Char} {found : List Token} (before : Spaced front found)
    (apart : ∀ c ∈ front.getLast?, isSeparator c = true) (isWhole : IsWhole text) :
    Spaced (front ++ text) (found ++ [⟨1 + byteCount front, text⟩])

/-- Behind a separator the next token has not started. -/
theorem LineState.Agrees.parted {front : List Char} {state : LineState} {column : Nat}
    (agrees : state.Agrees (1 + byteCount front) column) (c : Char) :
    between.Agrees (1 + byteCount (front ++ state.text ++ [c])) (column + c.utf8Size) := by
  have here : column + c.utf8Size = 1 + byteCount (front ++ state.text ++ [c]) := by
    have nothing : byteCount [] = 0 := rfl
    have columnIs := agrees.column
    rw [byteCount_append, byteCount_append, byteCount_cons]
    omega
  rw [← here]
  exact agrees_between _

/-- The front of a line has been scanned: its tokens are complete, and another one may be open. -/
structure Scanned (front : List Char) (found : List Token) (state : LineState) (column : Nat) :
    Prop where
  spaced : Spaced front found
  apart : ∀ c ∈ front.getLast?, isSeparator c = true
  agrees : state.Agrees (1 + byteCount front) column
  opened : state.Opened

namespace Scanned

variable {front text : List Char} {found : List Token} {state : LineState} {column : Nat}
  {c : Char}

theorem start : Scanned [] [] .between 1 :=
  ⟨.nil, by simp, LineState.agrees_between 1, trivial⟩

theorem push (scanned : Scanned front found state column)
    (goesOn : state.quoting = .outside → c ≠ '#' ∧ isSeparator c = false) :
    Scanned front found (state.push column c) (column + c.utf8Size) :=
  ⟨scanned.spaced, scanned.apart, scanned.agrees.push goesOn, (state.text_push column c).2⟩

/-- The token that is open is whole when its quotes are closed. -/
theorem spaced_parted (scanned : Scanned front found state column)
    (isOutside : state.quoting = .outside) :
    Spaced (front ++ state.text) (found ++ state.parted) := by
  cases state with
  | between =>
    rw [LineState.text, LineState.parted, List.append_nil, List.append_nil]
    exact scanned.spaced
  | word start reversed =>
    obtain rfl := scanned.agrees.start start rfl
    refine .token scanned.spaced scanned.apart ⟨?_, ?_, scanned.agrees.unbroken⟩
    · exact fun nothing => scanned.opened (List.reverse_eq_nil_iff.mp nothing)
    · exact scanned.agrees.quoting
  | quoted => exact absurd isOutside (LineState.quoting_quoted _ _ _)

theorem separator (scanned : Scanned front found state column)
    (isOutside : state.quoting = .outside) (separates : isSeparator c = true) :
    Scanned (front ++ state.text ++ [c]) (found ++ state.parted) .between
      (column + c.utf8Size) := by
  exact ⟨.separator (scanned.spaced_parted isOutside) separates, by simpa using separates,
    scanned.agrees.parted c, trivial⟩

/-- A text without a comment is scanned by itself, whatever follows it. -/
theorem append (scanned : Scanned front found state column)
    (uncommented : IsUncommentedFrom state.quoting text) : ∃ front' found' state' column',
      Scanned front' found' state' column' ∧ front ++ state.text ++ text = front' ++ state'.text ∧
      state'.quoting = text.foldl Quoting.next state.quoting ∧
      ∀ more, (found ++ ·) <$> tokensFrom column state (text ++ more) =
        (found' ++ ·) <$> tokensFrom column' state' more := by
  induction text generalizing front found state column with
  | nil => exact ⟨front, found, state, column, scanned, List.append_nil _, rfl, fun _ => rfl⟩
  | cons c rest inductionHypothesis =>
    obtain ⟨noComment, restUncommented⟩ := isUncommentedFrom_cons.mp uncommented
    rcases state.char_cases c with ⟨isOutside, isSign⟩ | ⟨isOutside, isSep⟩ | pushes
    · exact absurd isOutside (noComment isSign)
    · have stays : state.quoting.next c = .outside := by
        have notMark : c ≠ '"' := by
          rintro rfl
          exact absurd isSep (by decide)
        rw [isOutside, Quoting.next, if_neg notMark]
      rw [stays] at restUncommented
      obtain ⟨front', found', state', column', scanned', parts, quoting, goesOn⟩ :=
        inductionHypothesis (scanned.separator isOutside isSep) restUncommented
      refine ⟨front', found', state', column', scanned', ?_, ?_, fun more => ?_⟩
      · rw [← parts]
        simp [LineState.text]
      · rw [quoting, List.foldl_cons, stays]
        rfl
      · rw [← goesOn more, List.cons_append, tokensFrom_parted isOutside isSep, Functor.map_map]
        simp only [List.append_assoc]
    · rw [← LineState.quoting_push column] at restUncommented
      obtain ⟨front', found', state', column', scanned', parts, quoting, goesOn⟩ :=
        inductionHypothesis (scanned.push pushes) restUncommented
      refine ⟨front', found', state', column', scanned', ?_, ?_, fun more => ?_⟩
      · rw [← parts, (state.text_push column c).1]
        simp
      · rw [quoting, LineState.quoting_push, List.foldl_cons]
      · rw [← goesOn more, List.cons_append, tokensFrom_push pushes]

end Scanned

/--
A line is scanned up to its comment. The front and the open token are all of the line but the
comment, and the result depends on what ends there.
-/
structure IsScan (line front : List Char) (found : List Token) (state : LineState) (column : Nat)
    (comment : List Char) : Prop where
  parts : line = front ++ state.text ++ comment
  scanned : Scanned front found state column
  uncommented : IsUncommented (front ++ state.text)
  quoting : quotingAfter (front ++ state.text) = state.quoting
  isComment : IsComment comment
  closes : comment ≠ [] → state.quoting = .outside
  goesOn : ∀ more, tokens (front ++ state.text ++ more) =
    (found ++ ·) <$> tokensFrom column state more

theorem exists_scan (line : List Char) :
    ∃ front found state column comment, IsScan line front found state column comment := by
  obtain ⟨body, comment, rfl, uncommented, isComment, closes⟩ := exists_comment .outside line
  have fromStart : IsUncommentedFrom LineState.between.quoting body := uncommented
  obtain ⟨front, found, state, column, scanned, parts, quoting, goesOn⟩ :=
    Scanned.start.append fromStart
  obtain rfl : body = front ++ state.text := parts
  refine ⟨front, found, state, column, comment, rfl, scanned, uncommented, quoting.symm, isComment,
    fun starts => quoting.trans (closes starts), fun more => ?_⟩
  rw [← goesOn more]
  exact (id_map _).symm

namespace IsScan

variable {line front : List Char} {found : List Token} {state : LineState} {column : Nat}
  {comment : List Char}

theorem result (scan : IsScan line front found state column comment) :
    tokens line = (found ++ ·) <$> tokensFrom column state comment := by
  rw [scan.parts, scan.goesOn]

/-- The line is accepted if no quotes are open at its end. -/
theorem tokens_ok (scan : IsScan line front found state column comment)
    (isOutside : state.quoting = .outside) : tokens line = .ok (found ++ state.ended) := by
  rw [scan.result, tokensFrom_ended isOutside scan.isComment]
  rfl

/-- Open quotes go on up to the end of the line, which is refused. -/
theorem tokens_error (scan : IsScan line front found state column comment)
    (isInside : state.quoting ≠ .outside) :
    comment = [] ∧ ∃ start, tokens line = .error start := by
  have noComment : comment = [] := by_contra fun starts => isInside (scan.closes starts)
  have unclosed : ∃ start, tokensFrom column state [] = .error start :=
    tokensFrom_unclosed isInside
  obtain ⟨start, failure⟩ := unclosed
  refine ⟨noComment, start, ?_⟩
  rw [scan.result, noComment, failure]
  rfl

theorem eq_of_ok (scan : IsScan line front found state column comment) {others : List Token}
    (success : tokens line = .ok others) :
    state.quoting = .outside ∧ others = found ++ state.ended := by
  by_cases isOutside : state.quoting = .outside
  · rw [scan.tokens_ok isOutside] at success
    exact ⟨isOutside, (Except.ok.inj success).symm⟩
  · obtain ⟨_, start, failure⟩ := scan.tokens_error isOutside
    rw [failure] at success
    cases success

/-- Nothing is behind the token that ends the line if the line has no comment. -/
theorem comment_eq_nil (scan : IsScan line front found state column comment)
    (uncommented : IsUncommented line) : comment = [] := by
  cases comment with
  | nil => rfl
  | cons c rest =>
    obtain rfl := scan.isComment c rfl
    have isOutside := scan.quoting.trans (scan.closes (List.cons_ne_nil _ _))
    exact absurd isOutside (uncommented _ rest scan.parts)

end IsScan

end Scans

end CompiledCode.Listing
