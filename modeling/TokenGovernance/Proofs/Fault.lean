/-
# Checks in a row

A row of checks is passed when each is, and it is refused by the first that is not.
-/

import TokenGovernance.Fault

namespace TokenGovernance
namespace Fault

variable {α β : Type} {x : Except Fault α} {k : α → Except Fault β} {b : β} {f : Fault}

/-- Two steps answer when both do. -/
theorem bind_eq_ok_iff : (x >>= k) = .ok b ↔ ∃ a, x = .ok a ∧ k a = .ok b := by
  cases x <;> simp [bind, Except.bind]

/-- Two steps are refused for the first, or for the second after an answer of the first. -/
theorem bind_eq_error_iff :
    (x >>= k) = .error f ↔ x = .error f ∨ ∃ a, x = .ok a ∧ k a = .error f := by
  cases x <;> simp [bind, Except.bind]

/-- A step that only answers has one answer. -/
theorem pure_eq_ok_iff {a a' : α} : (pure a : Except Fault α) = .ok a' ↔ a' = a := by
  simp [pure, Except.pure, eq_comm]

/-- Naming an answer changes nothing else. -/
theorem map_eq_ok_iff {g : α → β} : g <$> x = .ok b ↔ ∃ a, x = .ok a ∧ g a = b := by
  cases x <;> simp [Functor.map, Except.map]

/-! ### Results out of range -/

/-- A checked operation answers with its result. -/
theorem orOverflow_eq_ok_iff {x : Option α} {a : α} : orOverflow x = .ok a ↔ x = some a := by
  rcases x with _ | b <;> simp [orOverflow]

/-- A checked operation without a result is refused as an overflow. -/
theorem orOverflow_eq_error_iff {x : Option α} {f : Fault} :
    orOverflow x = .error f ↔ x = none ∧ f = .overflow := by
  rcases x with _ | b <;> simp [orOverflow, eq_comm]

end Fault
end TokenGovernance
