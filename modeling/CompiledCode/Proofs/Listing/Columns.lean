import CompiledCode.Proofs.Listing.Extent

/-!
Where the tokens of a line stand. The column of a token counts the bytes in front of it, and it is
the start of the line or a separator that the token stands behind. A line without tokens has one
whose quotes are open up to the end of the line.
-/

namespace CompiledCode

/-- Blanks are dropped at the end only. -/
theorem Text.trimEnd_prefix (text : List Char) : trimEnd text <+: text := by
  have kept := List.dropWhile_suffix isBlank (l := text.reverse)
  rwa [← List.reverse_prefix, List.reverse_reverse] at kept

namespace Listing

/-- Whether a place is between quotes, and there whether it is behind a backslash. -/
inductive Quoting where
  | outside
  | inside
  | escaped
  deriving DecidableEq, Repr

/-- A mark opens or closes quotes, and a backslash between them takes a character literally. -/
def Quoting.next (quoting : Quoting) (c : Char) : Quoting :=
  match quoting with
  | outside => if c = '"' then inside else outside
  | inside => if c = '"' then outside else if c = '\\' then escaped else inside
  | escaped => inside

/-- The quoting behind a text that starts outside of quotes. -/
def quotingAfter (text : List Char) : Quoting := text.foldl Quoting.next .outside

theorem quotingAfter_concat (text : List Char) (c : Char) :
    quotingAfter (text ++ [c]) = (quotingAfter text).next c := by
  simp [quotingAfter]

/-- Outside of quotes, nothing in the text ends a token. -/
def IsUnbroken (text : List Char) : Prop :=
  ∀ before c after, text = before ++ c :: after → quotingAfter before = .outside →
    c ≠ '#' ∧ isSeparator c = false

theorem isUnbroken_nil : IsUnbroken [] := by
  intro before c after parts
  simp at parts

theorem IsUnbroken.concat {text : List Char} {c : Char} (unbroken : IsUnbroken text)
    (goesOn : quotingAfter text = .outside → c ≠ '#' ∧ isSeparator c = false) :
    IsUnbroken (text ++ [c]) := by
  intro before d after parts isOutside
  cases after using List.reverseRecOn with
  | nil =>
    obtain ⟨rfl, same⟩ := List.append_inj' parts rfl
    obtain rfl := List.singleton_inj.mp same
    exact goesOn isOutside
  | append_singleton after last =>
    have shorter : text ++ [c] = (before ++ d :: after) ++ [last] := by simp [parts]
    obtain ⟨rfl, _⟩ := List.append_inj' shorter rfl
    exact unbroken before d after rfl isOutside

/-- A token whose quotes are still open where the text ends. -/
structure IsUnclosed (text : List Char) : Prop where
  opened : quotingAfter text ≠ .outside
  unbroken : IsUnbroken text

/--
The part stands at the column of a line whose first byte has the column `origin`. In front of it is
nothing or a separator.
-/
def StandsAt (origin column : Nat) (part line : List Char) : Prop :=
  ∃ before after, line = before ++ part ++ after ∧ column = origin + byteCount before ∧
    ∀ c ∈ before.getLast?, isSeparator c = true

theorem byteCount_append (first second : List Char) :
    byteCount (first ++ second) = byteCount first + byteCount second := by
  simp [byteCount]

namespace StandsAt

variable {origin column : Nat} {part line : List Char}

/-- A front of the line stands where the line starts. -/
theorem front (part after : List Char) (origin : Nat) :
    StandsAt origin origin part (part ++ after) :=
  ⟨[], after, rfl, rfl, by simp⟩

/-- More text in front of the line moves its first byte and keeps the column. -/
theorem behind {more : List Char} (separates : ∀ c ∈ more.getLast?, isSeparator c = true)
    (stands : StandsAt (origin + byteCount more) column part line) :
    StandsAt origin column part (more ++ line) := by
  obtain ⟨before, after, rfl, rfl, apart⟩ := stands
  refine ⟨more ++ before, after, by simp, by rw [byteCount_append, Nat.add_assoc], ?_⟩
  cases before using List.reverseRecOn with
  | nil => simpa using separates
  | append_singleton before last => simpa [← List.append_assoc] using apart

end StandsAt

section States

/-- Where the token that is open starts. -/
def LineState.start? : LineState → Option Nat
  | between => none
  | word start _ | quoted start _ _ => some start

/-- The quoting behind the characters so far. -/
def LineState.quoting : LineState → Quoting
  | between | word _ _ => .outside
  | quoted _ _ false => .inside
  | quoted _ _ true => .escaped

theorem LineState.start?_push (column : Nat) (c : Char) (state : LineState) :
    (state.push column c).start? = some (state.start?.getD column) := by
  cases state with
  | between =>
    rw [push]
    split <;> rfl
  | word start reversed =>
    rw [push]
    split <;> rfl
  | quoted start reversed escaped =>
    cases escaped with
    | true => rfl
    | false =>
      rw [push]
      split <;> rfl

theorem LineState.quoting_push (column : Nat) (c : Char) (state : LineState) :
    (state.push column c).quoting = state.quoting.next c := by
  cases state with
  | between =>
    rw [push, quoting, Quoting.next]
    split <;> rfl
  | word start reversed =>
    rw [push, quoting, Quoting.next]
    split <;> rfl
  | quoted start reversed escaped =>
    cases escaped with
    | true => rfl
    | false =>
      by_cases mark : c = '"'
      · simp [push, quoting, Quoting.next, mark]
      · by_cases backslash : c = '\\' <;> simp [push, quoting, Quoting.next, mark, backslash]

/-- What a state says of the token that is open, which starts at `origin` and ends at `column`. -/
structure LineState.Agrees (origin column : Nat) (state : LineState) : Prop where
  start : ∀ start ∈ state.start?, start = origin
  column : column = origin + byteCount state.text
  quoting : quotingAfter state.text = state.quoting
  unbroken : IsUnbroken state.text

theorem LineState.agrees_between (column : Nat) : LineState.between.Agrees column column :=
  ⟨by simp [start?], rfl, rfl, isUnbroken_nil⟩

/-- A character that goes on with the token keeps the agreement. -/
theorem LineState.Agrees.push {origin column : Nat} {state : LineState} {c : Char}
    (agrees : state.Agrees origin column)
    (goesOn : state.quoting = .outside → c ≠ '#' ∧ isSeparator c = false) :
    (state.push column c).Agrees origin (column + c.utf8Size) := by
  have text := (state.text_push column c).1
  constructor
  · intro start isStart
    rw [start?_push] at isStart
    obtain rfl := Option.some.inj isStart
    cases opened : state.start? with
    | none =>
      have nothing : state.text = [] := by
        cases state <;> simp_all [start?, LineState.text]
      have here := agrees.column
      rw [nothing] at here
      exact here
    | some first => exact agrees.start first opened
  · rw [text, byteCount_append, byteCount_cons, agrees.column, Nat.add_assoc]
    rfl
  · rw [text, quotingAfter_concat, agrees.quoting, quoting_push]
  · rw [text]
    apply agrees.unbroken.concat
    rw [agrees.quoting]
    exact goesOn

end States

section Lines

/--
A result is right about the places in a line: tokens stand at their columns, and a column without
tokens is that of an unclosed token at the end of the line.
-/
def IsLocated (origin : Nat) (line : List Char) : Except Nat (List Token) → Prop
  | .ok found => ∀ token ∈ found, StandsAt origin token.column token.text line
  | .error start => ∃ before part, line = before ++ part ∧ StandsAt origin start part line ∧
      IsUnclosed part

/-- The end of a token can be cut off. -/
theorem lastToken_isLocated (origin : Nat) (reversed rest : List Char) :
    IsLocated origin (reversed.reverse ++ rest) (.ok (lastToken origin reversed)) := by
  intro token member
  obtain ⟨dropped, kept⟩ := Text.trimEnd_prefix reversed.reverse
  simp only [lastToken, List.mem_ite_nil_left, List.mem_singleton] at member
  obtain ⟨_, rfl⟩ := member
  have front := StandsAt.front (Text.trimEnd reversed.reverse) (dropped ++ rest) origin
  rwa [← List.append_assoc, kept] at front

theorem IsLocated.behind {origin : Nat} {more line : List Char} {result : Except Nat (List Token)}
    (separates : ∀ c ∈ more.getLast?, isSeparator c = true)
    (located : IsLocated (origin + byteCount more) line result) :
    IsLocated origin (more ++ line) result := by
  cases result with
  | ok found =>
    intro token member
    exact (located token member).behind separates
  | error start =>
    obtain ⟨before, part, rfl, stands, unclosed⟩ := located
    exact ⟨more ++ before, part, by simp, stands.behind separates, unclosed⟩

/-- Places are right from any state on that agrees with the token so far. -/
theorem tokensFrom_isLocated {origin column : Nat} {state : LineState}
    (agrees : state.Agrees origin column) (text : List Char) :
    IsLocated origin (state.text ++ text) (tokensFrom column state text) := by
  induction text generalizing origin column state with
  | nil =>
    cases state with
    | between => simp [tokensFrom, IsLocated]
    | word start reversed =>
      obtain rfl := agrees.start start rfl
      exact lastToken_isLocated start reversed []
    | quoted start reversed escaped =>
      obtain rfl := agrees.start start rfl
      refine ⟨[], reversed.reverse, by simp [LineState.text], StandsAt.front _ _ _, ?_, ?_⟩
      · have quoting := agrees.quoting
        cases escaped <;> simp_all [LineState.text, LineState.quoting]
      · exact agrees.unbroken
  | cons c rest inductionHypothesis =>
    have pushed (goesOn : state.quoting = .outside → c ≠ '#' ∧ isSeparator c = false) :
        IsLocated origin (state.text ++ c :: rest)
          (tokensFrom (column + c.utf8Size) (state.push column c) rest) := by
      have located := inductionHypothesis (agrees.push goesOn)
      rwa [(state.text_push column c).1, List.append_assoc] at located
    -- A separator ends the token that is open, and the tokens behind it stand further on.
    have separated (separates : isSeparator c = true) : IsLocated origin (state.text ++ c :: rest)
        (tokensFrom (column + c.utf8Size) .between rest) := by
      have located := inductionHypothesis (LineState.agrees_between (column + c.utf8Size))
      have here : column + c.utf8Size = origin + byteCount (state.text ++ [c]) := by
        rw [agrees.column, byteCount_append, byteCount_cons, Nat.add_assoc]
        rfl
      rw [here] at located ⊢
      have behind : IsLocated origin (state.text ++ [c] ++ rest) _ :=
        located.behind (by simpa using separates)
      rwa [List.append_assoc] at behind
    cases state with
    | between =>
      rw [tokensFrom]
      split
      · simp [IsLocated]
      · split
        · rename_i separates
          exact separated separates
        · rename_i noComment noSeparator
          apply pushed
          intro _
          exact ⟨noComment, by simpa using noSeparator⟩
    | word start reversed =>
      obtain rfl := agrees.start start rfl
      rw [tokensFrom]
      split
      · exact lastToken_isLocated start reversed (c :: rest)
      · split
        · rename_i separates
          have others := separated separates
          cases result : tokensFrom (column + c.utf8Size) .between rest with
          | error place =>
            rw [result] at others
            exact others
          | ok found =>
            rw [result] at others
            have first : StandsAt start start reversed.reverse (reversed.reverse ++ c :: rest) :=
              StandsAt.front _ _ _
            exact List.forall_mem_cons.mpr ⟨first, others⟩
        · rename_i noComment noSeparator
          apply pushed
          intro _
          exact ⟨noComment, by simpa using noSeparator⟩
    | quoted start reversed escaped =>
      rw [tokensFrom]
      apply pushed
      intro isOutside
      cases escaped <;> cases isOutside

theorem tokens_isLocated (line : List Char) : IsLocated 1 line (tokens line) :=
  tokensFrom_isLocated (LineState.agrees_between 1) line

end Lines

end Listing

end CompiledCode
