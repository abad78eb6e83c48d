import Mathlib.Data.List.Induction
import Mathlib.Data.List.Nodup
import CompiledCode.Listing.Literal

/-!
Interning numbers the literals in the order of their first use. The table holds those so far without
repetitions, and more literals only add to its end, so that an index keeps its literal.
-/

namespace CompiledCode.Listing

section Repetitions

variable {α β : Type} [BEq α] [LawfulBEq α] [BEq β] [LawfulBEq β] {items : List α} {item : α}

theorem eraseDups_concat_of_mem (member : item ∈ items) :
    (items ++ [item]).eraseDups = items.eraseDups := by
  simp [List.eraseDups_append, List.removeAll, member]

theorem eraseDups_concat_of_not_mem (isNew : item ∉ items) :
    (items ++ [item]).eraseDups = items.eraseDups ++ [item] := by
  simp [List.eraseDups_append, List.eraseDups_cons, List.removeAll, isNew]

theorem nodup_eraseDups (items : List α) : items.eraseDups.Nodup := by
  induction items using List.reverseRecOn with
  | nil => simp
  | append_singleton items item inductionHypothesis =>
    by_cases member : item ∈ items
    · rwa [eraseDups_concat_of_mem member]
    · rw [eraseDups_concat_of_not_mem member]
      apply inductionHypothesis.append (by simp)
      simpa using member

theorem length_eraseDups_le (items : List α) : items.eraseDups.length ≤ items.length := by
  induction items using List.reverseRecOn with
  | nil => simp
  | append_singleton items item inductionHypothesis =>
    by_cases member : item ∈ items
    · rw [eraseDups_concat_of_mem member, List.length_append]
      omega
    · rw [eraseDups_concat_of_not_mem member, List.length_append, List.length_append]
      omega

/-- Different items stay different under an injective function. -/
theorem eraseDups_map {f : α → β} (injective : Function.Injective f) (items : List α) :
    (items.map f).eraseDups = items.eraseDups.map f := by
  induction items using List.reverseRecOn with
  | nil => simp
  | append_singleton items item inductionHypothesis =>
    rw [List.map_append, List.map_singleton]
    by_cases member : item ∈ items
    · rw [eraseDups_concat_of_mem (List.mem_map_of_mem member), inductionHypothesis,
        eraseDups_concat_of_mem member]
    · have imageIsNew : f item ∉ items.map f := by
        rwa [List.mem_map_of_injective injective]
      rw [eraseDups_concat_of_not_mem imageIsNew, inductionHypothesis,
        eraseDups_concat_of_not_mem member, List.map_append, List.map_singleton]

/-- The place of an item does not depend on what comes behind it. -/
theorem idxOf_eraseDups_append (member : item ∈ items) (more : List α) :
    (items ++ more).eraseDups.idxOf item = items.eraseDups.idxOf item := by
  rw [List.eraseDups_append, List.idxOf_append_of_mem (List.mem_eraseDups.mpr member)]

end Repetitions

/-- After the literals `before`, interning gives the table of one more and the place of it there. -/
theorem LiteralTable.intern_eraseDups (before : List Literal) (literal : Literal) :
    intern before.eraseDups literal =
      ((before ++ [literal]).eraseDups.idxOf literal, (before ++ [literal]).eraseDups) := by
  rw [intern]
  by_cases known : literal ∈ before
  · rw [if_pos (List.mem_eraseDups.mpr known), eraseDups_concat_of_mem known]
  · have isNew : literal ∉ before.eraseDups := by rwa [List.mem_eraseDups]
    rw [if_neg isNew, eraseDups_concat_of_not_mem known, List.idxOf_append_of_notMem isNew]
    simp

end CompiledCode.Listing
