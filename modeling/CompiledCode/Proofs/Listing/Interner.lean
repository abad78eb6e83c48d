import Mathlib.Data.List.Forall2
import CompiledCode.Proofs.Listing.Interning

/-!
Literals that are interned one after another. A literal can be looked for in the table, or an index
can be kept beside the table that has the place of every literal. Both give the same places, and the
index stays the inverse of the table.
-/

namespace CompiledCode.Listing

/-- The places that literals get one after another, and what is left after the last one. -/
def numbered {σ : Type} (intern : σ → Literal → Nat × σ) (state : σ) :
    List Literal → List Nat × σ
  | [] => ([], state)
  | literal :: rest =>
    let (place, state) := intern state literal
    let (places, state) := numbered intern state rest
    (place :: places, state)

/-- A table of literals with an index from each of them to its place. -/
structure Interner where
  literals : LiteralTable
  index : List (Literal × Nat)
  deriving DecidableEq, Repr

namespace Interner

def empty : Interner := ⟨[], []⟩

/-- The place of a literal, which joins the table and the index when the index does not have it. -/
def intern (interner : Interner) (literal : Literal) : Nat × Interner :=
  match interner.index.lookup literal with
  | some place => (place, interner)
  | none =>
    let place := interner.literals.length
    (place, ⟨interner.literals ++ [literal], (literal, place) :: interner.index⟩)

/-- The index and the table are inverse to each other. -/
def IsInverse (interner : Interner) : Prop :=
  ∀ literal place,
    interner.index.lookup literal = some place ↔ interner.literals[place]? = some literal

variable {interner : Interner} {literal : Literal}

theorem isInverse_empty : empty.IsInverse := by
  simp [IsInverse, empty]

/-- The index lacks the literals that are not in the table. -/
theorem IsInverse.lookup_eq_none_iff (inverse : interner.IsInverse) :
    interner.index.lookup literal = none ↔ literal ∉ interner.literals := by
  constructor
  · intro missing member
    obtain ⟨place, there⟩ := List.getElem?_of_mem member
    rw [(inverse literal place).mpr there] at missing
    cases missing
  · intro absent
    cases found : interner.index.lookup literal with
    | none => rfl
    | some place =>
      exact absurd (List.mem_of_getElem? ((inverse literal place).mp found)) absent

/-- No literal is at two places, since the index has one place for each. -/
theorem IsInverse.lookup_of_mem (inverse : interner.IsInverse)
    (member : literal ∈ interner.literals) : interner.index.lookup literal = some (interner.literals.idxOf literal) :=
  (inverse literal _).mpr (List.getElem?_idxOf member)

/-- Looking in the index gives what looking through the table gives. -/
theorem IsInverse.intern_eq (inverse : interner.IsInverse) (literal : Literal) :
    (interner.intern literal).1 = (interner.literals.intern literal).1 ∧
      (interner.intern literal).2.literals = (interner.literals.intern literal).2 := by
  rw [intern, LiteralTable.intern]
  by_cases known : literal ∈ interner.literals
  · rw [if_pos known, inverse.lookup_of_mem known]
    exact ⟨rfl, rfl⟩
  · rw [if_neg known, inverse.lookup_eq_none_iff.mpr known]
    exact ⟨rfl, rfl⟩

/-- A new literal is put at the end of the table, where the index says that it is. -/
theorem IsInverse.intern (inverse : interner.IsInverse) (literal : Literal) :
    (interner.intern literal).2.IsInverse := by
  rw [Interner.intern]
  cases found : interner.index.lookup literal with
  | some place => exact inverse
  | none =>
    have absent := inverse.lookup_eq_none_iff.mp found
    intro other place
    dsimp only
    rw [List.lookup_cons, List.getElem?_append]
    by_cases same : other = literal
    · subst same
      have elsewhere : interner.literals[place]? ≠ some other :=
        fun there => absent (List.mem_of_getElem? there)
      rw [beq_self_eq_true]
      dsimp only
      by_cases isOld : place < interner.literals.length
      · rw [if_pos isOld]
        simp [elsewhere, Nat.ne_of_gt isOld]
      · rw [if_neg isOld, List.getElem?_singleton]
        simp only [Option.some.injEq]
        split <;> simp <;> omega
    · rw [beq_false_of_ne same]
      dsimp only
      rw [inverse other place]
      by_cases isOld : place < interner.literals.length
      · rw [if_pos isOld]
      · rw [if_neg isOld, List.getElem?_eq_none (Nat.le_of_not_lt isOld), List.getElem?_singleton]
        split <;> simp [Ne.symm same]

end Interner

section Runs

variable {σ : Type} {intern : σ → Literal → Nat × σ} {interner : Interner}

theorem numbered_cons (state : σ) (literal : Literal) (rest : List Literal) :
    numbered intern state (literal :: rest) =
      ((intern state literal).1 :: (numbered intern (intern state literal).2 rest).1,
        (numbered intern (intern state literal).2 rest).2) := rfl

/-- The places in the table and the table itself are those of the literals without repetitions. -/
theorem numbered_table (before calls : List Literal) :
    numbered LiteralTable.intern before.eraseDups calls =
      (calls.map fun literal => (before ++ calls).eraseDups.idxOf literal,
        (before ++ calls).eraseDups) := by
  induction calls generalizing before with
  | nil => rw [List.append_nil]; rfl
  | cons literal rest inductionHypothesis =>
    have others := inductionHypothesis (before ++ [literal])
    have known : literal ∈ before ++ [literal] := by simp
    have stays := idxOf_eraseDups_append known rest
    rw [List.append_assoc, List.singleton_append] at others stays
    rw [numbered_cons, LiteralTable.intern_eraseDups, others, List.map_cons, stays]

/-- The first calls start from an empty table. -/
theorem numbered_empty (calls : List Literal) :
    numbered LiteralTable.intern [] calls = (calls.map calls.eraseDups.idxOf, calls.eraseDups) :=
  numbered_table [] calls

section Places

variable (calls later : List Literal)

/-- The place that a call gives has the literal, at once and after further calls. -/
theorem places_hold : List.Forall₂
    (fun literal place => place < (numbered LiteralTable.intern [] calls).2.length ∧
      (numbered LiteralTable.intern [] calls).2[place]? = some literal ∧
      (numbered LiteralTable.intern [] (calls ++ later)).2[place]? = some literal)
    calls (numbered LiteralTable.intern [] calls).1 := by
  rw [numbered_empty, numbered_empty, List.forall₂_map_right_iff, List.forall₂_same]
  intro literal member
  have known : literal ∈ calls.eraseDups := List.mem_eraseDups.mpr member
  have stillKnown : literal ∈ (calls ++ later).eraseDups :=
    List.mem_eraseDups.mpr (List.mem_append_left _ member)
  refine ⟨List.idxOf_lt_length_of_mem known, List.getElem?_idxOf known, ?_⟩
  rw [← idxOf_eraseDups_append member later]
  exact List.getElem?_idxOf stillKnown

/-- Further calls do not change the places of the first ones. -/
theorem places_prefix : (numbered LiteralTable.intern [] calls).1 <+:
    (numbered LiteralTable.intern [] (calls ++ later)).1 := by
  have stays : calls.map (calls ++ later).eraseDups.idxOf = calls.map calls.eraseDups.idxOf := by
    apply List.map_congr_left
    intro literal member
    exact idxOf_eraseDups_append member later
  rw [numbered_empty, numbered_empty, List.map_append, stays]
  exact List.prefix_append _ _

/-- Different literals have different places. -/
theorem places_eq_iff {first second : Nat} (isFirst : first < calls.length)
    (isSecond : second < calls.length) :
    (numbered LiteralTable.intern [] calls).1[first]? =
        (numbered LiteralTable.intern [] calls).1[second]? ↔
      calls[first]? = calls[second]? := by
  rw [numbered_empty, List.getElem?_map, List.getElem?_map, List.getElem?_eq_getElem isFirst,
    List.getElem?_eq_getElem isSecond, Option.map_some, Option.map_some, Option.some.injEq,
    Option.some.injEq]
  exact List.idxOf_inj (List.mem_eraseDups.mpr (List.getElem_mem isFirst))

end Places

/-- The index makes no difference to the places or to the table, and it stays an inverse. -/
theorem numbered_interner (inverse : interner.IsInverse) (calls : List Literal) :
    (numbered Interner.intern interner calls).1 =
        (numbered LiteralTable.intern interner.literals calls).1 ∧
      (numbered Interner.intern interner calls).2.literals =
        (numbered LiteralTable.intern interner.literals calls).2 ∧
      (numbered Interner.intern interner calls).2.IsInverse := by
  induction calls generalizing interner with
  | nil => exact ⟨rfl, rfl, inverse⟩
  | cons literal rest inductionHypothesis =>
    obtain ⟨samePlace, sameTable⟩ := inverse.intern_eq literal
    obtain ⟨places, table, stillInverse⟩ := inductionHypothesis (inverse.intern literal)
    rw [sameTable] at places table
    rw [numbered_cons, numbered_cons]
    exact ⟨congrArg₂ List.cons samePlace places, table, stillInverse⟩

end Runs

end CompiledCode.Listing
