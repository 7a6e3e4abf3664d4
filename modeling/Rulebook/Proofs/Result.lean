import Mathlib
import Rulebook.Error

/-! # Results that may be errors -/

namespace Rulebook

variable {ε α β : Type}

/-- A sequence succeeds if both parts do. -/
theorem bind_eq_ok_iff {x : Except ε α} {f : α → Except ε β} {b : β} :
    x >>= f = .ok b ↔ ∃ a, x = .ok a ∧ f a = .ok b := by
  cases x with
  | ok a =>
    constructor
    · intro h; exact ⟨a, rfl, h⟩
    · rintro ⟨_, ⟨⟩, h⟩; exact h
  | error e =>
    constructor
    · intro h; cases h
    · rintro ⟨_, ⟨⟩, _⟩

theorem ok_iff_toOption {r : Except ε α} {a : α} : r = .ok a ↔ r.toOption = some a := by
  cases r <;> simp [Except.toOption]

/-- Results that are the same but for their errors. -/
theorem cases_of_toOption_eq {r r' : Except ε α} (same : r'.toOption = r.toOption) :
    (∃ e e', r = .error e ∧ r' = .error e') ∨ ∃ a, r = .ok a ∧ r' = .ok a := by
  rcases r with e | a <;> rcases r' with e' | b
  · exact .inl ⟨e, e', rfl, rfl⟩
  · cases same
  · cases same
  · cases same
    exact .inr ⟨a, rfl, rfl⟩

/-- The error of a result, so that it can be compared. -/
def error? : Except ε α → Option ε
  | .ok _ => none
  | .error e => some e

theorem error?_eq_some_iff {r : Except ε α} {e : ε} : error? r = some e ↔ r = .error e := by
  cases r <;> simp [error?]

theorem map_eq_ok_iff {r : Except ε α} {f : α → β} {b : β} :
    r.map f = .ok b ↔ ∃ a, r = .ok a ∧ f a = b := by
  cases r <;> simp [Except.map]

theorem map_eq_error_iff {r : Except ε α} {f : α → β} {e : ε} :
    r.map f = .error e ↔ r = .error e := by
  cases r <;> simp [Except.map]

theorem Error.ofProblems_eq_none_iff {ps : List Problem} : ofProblems ps = none ↔ ps = [] := by
  rcases ps with _ | ⟨p, _ | ⟨q, ps⟩⟩ <;> simp [ofProblems]

end Rulebook
