/-
# Ledger time

Time is whatever the hosting ledger counts in whole seconds, and no rule of the library reads a
clock: each call is told the current instant. A `Duration` is a number of seconds, a `Timestamp`
an instant.
-/

import TokenGovernance.Quantity

namespace TokenGovernance

/-- A length of time in seconds. -/
abbrev Duration := Quantity 64

/-- A number of whole days. -/
def Duration.days (n : Nat) : Duration := .clamp (86400 * n)

/-- An instant, in seconds of ledger time. -/
structure Timestamp extends Quantity 64
deriving DecidableEq, Inhabited

namespace Timestamp

/-- Two instants of one value are one instant. -/
@[ext] theorem ext {a b : Timestamp} (h : a.val = b.val) : a = b := by
  obtain ⟨a⟩ := a
  obtain ⟨b⟩ := b
  exact congrArg mk (Quantity.ext h)

instance : LE Timestamp := ⟨fun a b => a.val ≤ b.val⟩

instance : LT Timestamp := ⟨fun a b => a.val < b.val⟩

/-- Instants are in the order of their seconds. -/
theorem le_def {a b : Timestamp} : a ≤ b ↔ a.val ≤ b.val := Iff.rfl

/-- The strict order is that of the seconds as well. -/
theorem lt_def {a b : Timestamp} : a < b ↔ a.val < b.val := Iff.rfl

instance (a b : Timestamp) : Decidable (a ≤ b) := inferInstanceAs (Decidable (a.val ≤ b.val))

instance (a b : Timestamp) : Decidable (a < b) := inferInstanceAs (Decidable (a.val < b.val))

/-- An instant is written as its seconds and an `s`. -/
def render (t : Timestamp) : String := s!"{t.val}s"

/-- The instant `d` after `t`, if it is representable. -/
def after? (t : Timestamp) (d : Duration) : Option Timestamp := (t.toQuantity.add? d).map mk

/-- Whether `d` has passed since `t` at `now`. An end beyond the last instant counts as the last
instant. -/
def hasExpired (t : Timestamp) (d : Duration) (now : Timestamp) : Bool :=
  t.toQuantity.saturatingAdd d ≤ now.toQuantity

/-- An instant later by a checked duration is later by exactly that. -/
theorem after?_eq_some_iff {t u : Timestamp} {d : Duration} :
    t.after? d = some u ↔ u.val = t.val + d.val := by
  unfold after?
  rw [Option.map_eq_some_iff]
  constructor
  · rintro ⟨q, hq, rfl⟩
    exact Quantity.add?_eq_some_iff.1 hq
  · intro h
    exact ⟨u.toQuantity, Quantity.add?_eq_some_iff.2 h, rfl⟩

/-- When an instant has expired, its end being cut off at the last second there is. -/
theorem hasExpired_iff {t now : Timestamp} {d : Duration} :
    t.hasExpired d now = true ↔ min (t.val + d.val) (1 <<< 64 - 1) ≤ now.val := by
  simp [hasExpired, Quantity.le_def]

end Timestamp

/-- A clock that moves only when it is told to. -/
structure Clock where
  /-- The current instant. -/
  now : Timestamp := ⟨.zero⟩

namespace Clock

/-- The clock moved on by `d`, unless that passes the last instant. -/
def advance? (c : Clock) (d : Duration) : Option Clock := (c.now.after? d).map mk

end Clock

end TokenGovernance
