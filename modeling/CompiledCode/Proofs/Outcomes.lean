/-!
A computation that may fail has succeeded only if each of its steps has.
-/

namespace CompiledCode

variable {ε α β : Type}

theorem except_bind_eq_ok {first : Except ε α} {next : α → Except ε β} {b : β} :
    first >>= next = .ok b ↔ ∃ a, first = .ok a ∧ next a = .ok b := by
  cases first with
  | ok a =>
    constructor
    · intro success
      exact ⟨a, rfl, success⟩
    · rintro ⟨_, same, success⟩
      cases same
      exact success
  | error failure =>
    constructor
    · intro success
      cases success
    · rintro ⟨_, same, _⟩
      cases same

theorem except_map_eq_ok {first : Except ε α} {f : α → β} {b : β} :
    f <$> first = .ok b ↔ ∃ a, first = .ok a ∧ f a = b := by
  rw [map_eq_pure_bind, except_bind_eq_ok]
  simp only [pure, Except.pure, Except.ok.injEq]

/-- A fault of the whole is that of the first step, or of the next one behind its success. -/
theorem except_bind_eq_error {first : Except ε α} {next : α → Except ε β} {fault : ε} :
    first >>= next = .error fault ↔
      first = .error fault ∨ ∃ a, first = .ok a ∧ next a = .error fault := by
  cases first with
  | ok a =>
    constructor
    · intro failed
      exact .inr ⟨a, rfl, failed⟩
    · rintro (failed | ⟨_, same, failed⟩)
      · cases failed
      · cases same
        exact failed
  | error failure =>
    constructor
    · intro failed
      cases failed
      exact .inl rfl
    · rintro (failed | ⟨_, same, _⟩)
      · cases failed
        rfl
      · cases same

theorem except_map_eq_error {first : Except ε α} {f : α → β} {fault : ε} :
    f <$> first = .error fault ↔ first = .error fault := by
  cases first with
  | ok a => simp [Functor.map, Except.map]
  | error failure => simp [Functor.map, Except.map]

/-- A fold fails at one of the items, from the state behind the items in front of it. -/
theorem of_foldlM_error {step : β → α → Except ε β} {items : List α} {start : β} {fault : ε}
    (failed : items.foldlM step start = .error fault) :
    ∃ before item after state, items = before ++ item :: after ∧
      before.foldlM step start = .ok state ∧ step state item = .error fault := by
  induction items generalizing start with
  | nil => cases failed
  | cons first rest inductionHypothesis =>
    rw [List.foldlM_cons] at failed
    rcases except_bind_eq_error.mp failed with here | ⟨middle, passed, further⟩
    · exact ⟨[], first, rest, start, rfl, rfl, here⟩
    · obtain ⟨before, item, after, state, rfl, reached, there⟩ := inductionHypothesis further
      refine ⟨first :: before, item, after, state, rfl, ?_, there⟩
      rw [List.foldlM_cons, passed]
      exact reached

/-- A fault that no step has is no fault of the whole. -/
theorem except_bind_ne_error {first : Except ε α} {next : α → Except ε β} {fault : ε}
    (notFirst : first ≠ .error fault) (notNext : ∀ a, next a ≠ .error fault) :
    first >>= next ≠ .error fault := by
  cases first with
  | ok a => exact notNext a
  | error => exact fun failed => notFirst (by cases failed; rfl)

end CompiledCode
