/-!
# Outcomes

When a computation that may fail goes through: a step after another one does if both do.
-/

namespace Statechart

theorem Except.bind_eq_ok {ε α β : Type} {x : Except ε α} {f : α → Except ε β} {b : β} :
    (x >>= f) = .ok b ↔ ∃ a, x = .ok a ∧ f a = .ok b := by
  cases x <;> simp [bind, Except.bind]

theorem Except.bind_eq_error {ε α β : Type} {x : Except ε α} {f : α → Except ε β} {e : ε} :
    (x >>= f) = .error e ↔ x = .error e ∨ ∃ a, x = .ok a ∧ f a = .error e := by
  cases x <;> simp [bind, Except.bind]

theorem Except.map_eq_ok {ε α β : Type} {x : Except ε α} {f : α → β} {b : β} :
    x.map f = .ok b ↔ ∃ a, x = .ok a ∧ f a = b := by
  cases x <;> simp [Except.map]

/-- What is ok is ok with the value it holds. -/
theorem ok_of_isOk {ε α : Type} [Inhabited α] {x : Except ε α} (h : x.isOk = true) :
    x = .ok (x.toOption.getD default) := by
  cases x with
  | ok a => rfl
  | error e => cases h

/-- The same of a computation that gives something besides in any case. -/
theorem pair_of_isOk {ε α β : Type} [Inhabited α] {x : β × Except ε α} (h : x.2.isOk = true) :
    x = (x.1, .ok (x.2.toOption.getD default)) :=
  Prod.ext rfl (ok_of_isOk h)

end Statechart
