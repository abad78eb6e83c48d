import CompiledCode.Proofs.Text.NumberRoundTrip

/-!
Lines that are written one after another, each with a line feed, are found again.
-/

namespace CompiledCode.Text

section Terminated

variable {bodies : List (List Char)} (inside : ∀ body ∈ bodies, '\n' ∉ body)

include inside

theorem pieces_terminated :
    pieces (· == '\n') (bodies.flatMap (· ++ ['\n'])) = bodies ++ [[]] := by
  induction bodies with
  | nil => rfl
  | cons first rest inductionHypothesis =>
    obtain ⟨firstInside, restInside⟩ := List.forall_mem_cons.mp inside
    have noFeed : ∀ c ∈ first, (c == '\n') = false := by
      intro c member
      rw [beq_eq_false_iff_ne]
      rintro rfl
      exact firstInside member
    rw [List.flatMap_cons, List.append_assoc, List.singleton_append, pieces_append noFeed rfl,
      inductionHypothesis restInside, List.cons_append]

/-- Only a carriage return at the end of a line is lost. -/
theorem lines_terminated : lines (bodies.flatMap (· ++ ['\n'])) = bodies.map dropReturn := by
  rw [lines, pieces_terminated inside]
  simp

end Terminated

theorem not_mem_intercalate {c : Char} {separator : List Char} {texts : List (List Char)}
    (outside : c ∉ separator) (each : ∀ text ∈ texts, c ∉ text) :
    c ∉ separator.intercalate texts := by
  induction texts with
  | nil => exact List.not_mem_nil
  | cons first rest inductionHypothesis =>
    obtain ⟨firstOutside, restOutside⟩ := List.forall_mem_cons.mp each
    cases rest with
    | nil => rwa [List.intercalate_singleton]
    | cons second others =>
      rw [List.intercalate_cons_cons]
      simp [firstOutside, outside, inductionHypothesis restOutside]

theorem dropReturn_of_not_mem {line : List Char} (noReturn : '\r' ∉ line) :
    dropReturn line = line := by
  rw [dropReturn, if_neg]
  exact fun last => noReturn (List.mem_of_getLast? last)

/-- No character in front of one that is not a carriage return is lost. -/
theorem dropReturn_append {c : Char} (notReturn : c ≠ '\r') (before after : List Char) :
    ∃ kept, dropReturn (before ++ c :: after) = before ++ c :: kept := by
  rw [dropReturn]
  split
  · rename_i last
    cases after with
    | nil =>
      rw [List.getLast?_concat] at last
      exact absurd (Option.some.inj last) notReturn
    | cons d after =>
      refine ⟨(d :: after).dropLast, ?_⟩
      rw [List.dropLast_append_of_ne_nil (List.cons_ne_nil _ _), List.dropLast_cons_cons]
  · exact ⟨after, rfl⟩

end CompiledCode.Text
