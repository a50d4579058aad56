/-! Two fallible computations side by side: they end alike if they fail with the same error or both
succeed with related results. -/

/-- The same error, or related results. -/
inductive EndsAlike {ε α β : Type} (R : α → β → Prop) : Except ε α → Except ε β → Prop
  | ok {a : α} {b : β} (related : R a b) : EndsAlike R (.ok a) (.ok b)
  | error (e : ε) : EndsAlike R (.error e) (.error e)

namespace EndsAlike

variable {ε α β : Type} {R Q : α → β → Prop} {x : Except ε α} {y : Except ε β}

/-- What both computations ended with. -/
theorem outcome (halike : EndsAlike R x y) :
    (∃ e, x = .error e ∧ y = .error e) ∨ ∃ a b, x = .ok a ∧ y = .ok b ∧ R a b := by
  cases halike with
  | ok related => exact Or.inr ⟨_, _, rfl, rfl, related⟩
  | error e => exact Or.inl ⟨e, rfl, rfl⟩

theorem eq_of_ok {b : β} (halike : EndsAlike R x y) (hok : y = .ok b) : ∃ a, x = .ok a ∧ R a b := by
  subst hok
  cases halike with
  | ok related => exact ⟨_, rfl, related⟩

theorem ok_of_eq {a : α} (halike : EndsAlike R x y) (hok : x = .ok a) : ∃ b, y = .ok b ∧ R a b := by
  subst hok
  cases halike with
  | ok related => exact ⟨_, rfl, related⟩

end EndsAlike
