import CompiledCode.Listing.Token
import CompiledCode.Proofs.Text.NumberRoundTrip

/-!
The tokens of a line that is written with care: words in which nothing separates, quotes or starts a
comment are its tokens when separators keep them apart, and a comment at its end adds none.
-/

namespace CompiledCode.Listing

/-- A character that goes on with a token and may be the last one of it. -/
def IsOrdinary (c : Char) : Prop :=
  c ≠ '#' ∧ c ≠ '"' ∧ isSeparator c = false ∧ Text.isBlank c = false

instance (c : Char) : Decidable (IsOrdinary c) := inferInstanceAs (Decidable (_ ∧ _))

/-- Digits and lower-case letters are ordinary. -/
theorem isOrdinary_of_toNat {c : Char}
    (range : 48 ≤ c.toNat ∧ c.toNat ≤ 57 ∨ 97 ≤ c.toNat ∧ c.toNat ≤ 122) : IsOrdinary c := by
  have differs : ∀ other : Char,
      ¬ (48 ≤ other.toNat ∧ other.toNat ≤ 57 ∨ 97 ≤ other.toNat ∧ other.toNat ≤ 122) →
        c ≠ other := fun other outside same => outside (same ▸ range)
  refine ⟨differs '#' (by decide), differs '"' (by decide), ?_, ?_⟩
  · simp [isSeparator, differs ' ' (by decide), differs '\t' (by decide), differs ',' (by decide)]
  · exact Text.not_isBlank_of_toNat (by omega) (by omega)

/-- A word that is one token by itself. -/
structure IsBare (text : List Char) : Prop where
  filled : text ≠ []
  inside : ∀ c ∈ text, IsOrdinary c

theorem isBare_singleton {c : Char} (ordinary : IsOrdinary c) : IsBare [c] :=
  ⟨List.cons_ne_nil c [], List.forall_mem_singleton.mpr ordinary⟩

theorem isBare_append {first second : List Char} (firstBare : IsBare first)
    (secondBare : IsBare second) : IsBare (first ++ second) :=
  ⟨by simp [firstBare.filled], List.forall_mem_append.mpr ⟨firstBare.inside, secondBare.inside⟩⟩

/-- A text spells words that separators keep apart. -/
inductive Spells : List Char → List (List Char) → Prop where
  | nil : Spells [] []
  | separator {c : Char} {rest : List Char} {words : List (List Char)}
    (separates : isSeparator c = true) (more : Spells rest words) : Spells (c :: rest) words
  | word {text rest : List Char} {words : List (List Char)} (bare : IsBare text)
    (apart : ∀ c ∈ rest.head?, isSeparator c = true) (more : Spells rest words) :
    Spells (text ++ rest) (text :: words)

namespace Spells

variable {text rest : List Char} {words more : List (List Char)}

theorem blank (spells : Spells rest words) : Spells (' ' :: rest) words := .separator rfl spells

theorem single (bare : IsBare text) : Spells text [text] := by
  have alone : Spells (text ++ []) [text] := .word bare (by simp) .nil
  rwa [List.append_nil] at alone

theorem append (spells : Spells text words) (apart : ∀ c ∈ rest.head?, isSeparator c = true)
    (others : Spells rest more) : Spells (text ++ rest) (words ++ more) := by
  induction spells with
  | nil => exact others
  | separator separates _ inductionHypothesis => exact .separator separates inductionHypothesis
  | @word text between words bare apartBetween _ inductionHypothesis =>
    rw [List.append_assoc]
    refine .word bare ?_ inductionHypothesis
    cases between with
    | nil => exact apart
    | cons c between => exact apartBetween

/-- Words with commas and blanks between them. -/
theorem intercalate {texts : List (List Char)} (bare : ∀ text ∈ texts, IsBare text) :
    Spells ([',', ' '].intercalate texts) texts := by
  induction texts with
  | nil => exact .nil
  | cons first rest inductionHypothesis =>
    obtain ⟨firstBare, restBare⟩ := List.forall_mem_cons.mp bare
    cases rest with
    | nil =>
      rw [List.intercalate_singleton]
      exact .single firstBare
    | cons second others =>
      rw [List.intercalate_cons_cons, List.append_assoc]
      exact .word firstBare (by simp [isSeparator])
        (.separator rfl (.blank (inductionHypothesis restBare)))

/-- No line ends within such a text. -/
theorem inside (spells : Spells text words) : ∀ c ∈ text, c ≠ '\n' ∧ c ≠ '\r' := by
  induction spells with
  | nil => exact List.forall_mem_nil _
  | @separator c _ _ separates _ inductionHypothesis =>
    refine List.forall_mem_cons.mpr ⟨⟨?_, ?_⟩, inductionHypothesis⟩ <;>
    · rintro rfl
      exact absurd separates (by decide)
  | word bare _ _ inductionHypothesis =>
    refine List.forall_mem_append.mpr ⟨fun c member => ⟨?_, ?_⟩, inductionHypothesis⟩ <;>
    · rintro rfl
      exact absurd (bare.inside _ member) (by decide)

end Spells

section Reading

variable {column : Nat} {rest : List Char}

theorem ne_comment_of_isSeparator {c : Char} (separates : isSeparator c = true) : c ≠ '#' := by
  rintro rfl
  exact absurd separates (by decide)

theorem tokensFrom_separator {c : Char} (separates : isSeparator c = true) :
    tokensFrom column .between (c :: rest) = tokensFrom (column + c.utf8Size) .between rest := by
  rw [tokensFrom, if_neg (ne_comment_of_isSeparator separates), if_pos separates]

/-- A token goes on until something ends it. -/
theorem tokensFrom_word {text : List Char} (inside : ∀ c ∈ text, IsOrdinary c)
    (column start : Nat) (reversed rest : List Char) :
    ∃ next, tokensFrom column (.word start reversed) (text ++ rest) =
      tokensFrom next (.word start (text.reverse ++ reversed)) rest := by
  induction text generalizing column reversed with
  | nil => exact ⟨column, rfl⟩
  | cons c text inductionHypothesis =>
    obtain ⟨⟨noComment, noQuote, noSeparator, _⟩, more⟩ := List.forall_mem_cons.mp inside
    obtain ⟨next, goesOn⟩ := inductionHypothesis more (column + c.utf8Size) (c :: reversed)
    refine ⟨next, ?_⟩
    rw [List.cons_append, tokensFrom, if_neg noComment, if_neg (by simp [noSeparator]),
      LineState.push, if_neg noQuote, goesOn, List.reverse_cons, List.append_assoc,
      List.singleton_append]

/-- A bare word opens a token and is all of it so far. -/
theorem tokensFrom_bare {text : List Char} (bare : IsBare text) (column : Nat)
    (rest : List Char) :
    ∃ next, tokensFrom column .between (text ++ rest) =
      tokensFrom next (.word column text.reverse) rest := by
  obtain ⟨c, others, rfl⟩ := List.exists_cons_of_ne_nil bare.filled
  obtain ⟨⟨noComment, noQuote, noSeparator, _⟩, more⟩ := List.forall_mem_cons.mp bare.inside
  obtain ⟨next, goesOn⟩ := tokensFrom_word more (column + c.utf8Size) column [c] rest
  refine ⟨next, ?_⟩
  rw [List.cons_append, tokensFrom, if_neg noComment, if_neg (by simp [noSeparator]),
    LineState.push, if_neg noQuote, goesOn, List.reverse_cons]

/-- No blanks are lost at the end of a bare word. -/
theorem lastToken_bare {text : List Char} (bare : IsBare text) (start : Nat) :
    lastToken start text.reverse = [⟨start, text⟩] := by
  have untrimmed : Text.trimEnd text = text := by
    have notBlank := (bare.inside _ (List.getLast_mem bare.filled)).2.2.2
    have kept := Text.trimEnd_concat notBlank text.dropLast
    rwa [List.dropLast_concat_getLast] at kept
  rw [lastToken, List.reverse_reverse, untrimmed]
  simp [bare.filled]

/-- What is left of a line is nothing or a comment. -/
def IsComment (text : List Char) : Prop := ∀ c ∈ text.head?, c = '#'

theorem tokensFrom_comment {text : List Char} (isComment : IsComment text) :
    tokensFrom column .between text = .ok [] := by
  cases text with
  | nil => rfl
  | cons c text => rw [tokensFrom, if_pos (isComment c rfl)]

theorem tokensFrom_lastWord {text tail : List Char} (bare : IsBare text)
    (isComment : IsComment tail) (start : Nat) :
    tokensFrom column (.word start text.reverse) tail = .ok [⟨start, text⟩] := by
  cases tail with
  | nil => rw [tokensFrom, lastToken_bare bare]
  | cons c tail => rw [tokensFrom, if_pos (isComment c rfl), lastToken_bare bare]

end Reading

/-- The words that a text spells are its tokens, from any column on and with a comment behind it. -/
theorem Spells.tokensFrom_ok {text tail : List Char} {words : List (List Char)}
    (spells : Spells text words) (isComment : IsComment tail) (column : Nat) :
    ∃ found, tokensFrom column .between (text ++ tail) = .ok found ∧
      found.map Token.text = words := by
  induction spells generalizing column with
  | nil => exact ⟨[], tokensFrom_comment isComment, rfl⟩
  | separator separates _ inductionHypothesis =>
    rw [List.cons_append, tokensFrom_separator separates]
    exact inductionHypothesis _
  | @word text rest words bare apart more inductionHypothesis =>
    obtain ⟨next, opened⟩ := tokensFrom_bare bare column (rest ++ tail)
    obtain ⟨found, moreFound, texts⟩ := inductionHypothesis next
    rw [List.append_assoc, opened]
    -- The word ends at a separator, or else nothing but the comment is left.
    cases rest with
    | nil =>
      rw [List.nil_append, tokensFrom_comment isComment] at moreFound
      cases moreFound
      exact ⟨_, tokensFrom_lastWord bare isComment column, by rw [← texts]; rfl⟩
    | cons c rest =>
      have separates : isSeparator c = true := apart c rfl
      rw [List.cons_append, tokensFrom_separator separates] at moreFound
      refine ⟨⟨column, text⟩ :: found, ?_, congrArg (text :: ·) texts⟩
      rw [List.cons_append, tokensFrom, if_neg (ne_comment_of_isSeparator separates),
        if_pos separates, moreFound, List.reverse_reverse]
      rfl

end CompiledCode.Listing
