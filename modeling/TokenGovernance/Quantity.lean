/-
# Bounded quantities

A `Quantity bits` is a natural number of at most `bits` binary digits: one below `1 <<< bits`.
Every amount of tokens, instant, length of time, proposal number and version of the library is
one, so the way a result can leave the range is decided here and nowhere else:

| operation | result outside the range |
| --- | --- |
| `add?`, `sub?`, `succ?`, `ofNat?` | none |
| `saturatingAdd`, `saturatingSub`, `clamp` | the nearest end of the range |
-/

namespace TokenGovernance

/-- A natural number of at most `bits` binary digits. -/
structure Quantity (bits : Nat) where
  /-- The number itself. -/
  val : Nat
  /-- The number is in range. -/
  val_lt : val < 1 <<< bits
deriving DecidableEq

namespace Quantity

variable {bits : Nat}

/-- Two quantities of one value are one quantity: the bound carries nothing more. -/
@[ext] theorem ext {a b : Quantity bits} (h : a.val = b.val) : a = b := by
  cases a; cases b; simp_all

/-- There is always a quantity, zero. -/
theorem one_shiftLeft_pos (bits : Nat) : 0 < 1 <<< bits := by
  rw [Nat.one_shiftLeft]
  exact Nat.two_pow_pos bits

/-- The number `n`, if it is in range. -/
def ofNat? (n : Nat) : Option (Quantity bits) :=
  if h : n < 1 <<< bits then some ⟨n, h⟩ else none

/-- The number of the range closest to `n`. -/
def clamp (n : Nat) : Quantity bits :=
  ⟨min n (1 <<< bits - 1), by have := one_shiftLeft_pos bits; omega⟩

/-- Nothing. -/
def zero : Quantity bits := ⟨0, one_shiftLeft_pos bits⟩

/-- The largest number of the range. -/
def greatest : Quantity bits := clamp (1 <<< bits)

instance : Inhabited (Quantity bits) := ⟨zero⟩

/-- Whether the quantity is nothing. -/
def isZero (a : Quantity bits) : Bool := a.val == 0

instance : LE (Quantity bits) := ⟨fun a b => a.val ≤ b.val⟩

instance : LT (Quantity bits) := ⟨fun a b => a.val < b.val⟩

/-- Quantities are in the order of the numbers they stand for. -/
theorem le_def {a b : Quantity bits} : a ≤ b ↔ a.val ≤ b.val := Iff.rfl

/-- The strict order is that of the numbers as well. -/
theorem lt_def {a b : Quantity bits} : a < b ↔ a.val < b.val := Iff.rfl

instance (a b : Quantity bits) : Decidable (a ≤ b) := inferInstanceAs (Decidable (a.val ≤ b.val))

instance (a b : Quantity bits) : Decidable (a < b) := inferInstanceAs (Decidable (a.val < b.val))

instance : Ord (Quantity bits) := ⟨fun a b => compare a.val b.val⟩

instance : ToString (Quantity bits) := ⟨fun a => a.val.repr⟩

/-- The exact sum, if it is in range. -/
def add? (a b : Quantity bits) : Option (Quantity bits) := ofNat? (a.val + b.val)

/-- The next number, if it is in range. -/
def succ? (a : Quantity bits) : Option (Quantity bits) := ofNat? (a.val + 1)

/-- The exact difference, if it is not negative. -/
def sub? (a b : Quantity bits) : Option (Quantity bits) :=
  if b.val ≤ a.val then some ⟨a.val - b.val, by have := a.val_lt; omega⟩ else none

/-- The sum, or the largest number of the range where the sum is larger. -/
def saturatingAdd (a b : Quantity bits) : Quantity bits := clamp (a.val + b.val)

/-- The difference, or nothing where `b` is the larger one. -/
def saturatingSub (a b : Quantity bits) : Quantity bits :=
  ⟨a.val - b.val, by have := a.val_lt; omega⟩

/-- A number is in range exactly when `ofNat?` keeps it. -/
theorem ofNat?_eq_some_iff {n : Nat} {a : Quantity bits} : ofNat? n = some a ↔ a.val = n := by
  unfold ofNat?
  split
  · constructor
    · intro h
      cases h
      rfl
    · intro h
      exact congrArg some (ext h.symm)
  · rename_i h
    constructor
    · intro h'
      cases h'
    · rintro rfl
      exact absurd a.val_lt h

/-- A number that a quantity stands for is in range. -/
@[simp] theorem ofNat?_val (a : Quantity bits) : ofNat? a.val = some a :=
  ofNat?_eq_some_iff.2 rfl

/-- A checked sum answers with the exact sum. -/
theorem add?_eq_some_iff {a b c : Quantity bits} : a.add? b = some c ↔ c.val = a.val + b.val :=
  ofNat?_eq_some_iff

/-- A checked successor answers with the next number. -/
theorem succ?_eq_some_iff {a b : Quantity bits} : a.succ? = some b ↔ b.val = a.val + 1 :=
  ofNat?_eq_some_iff

/-- A checked difference answers with the exact difference, and only if it is not below zero. -/
theorem sub?_eq_some_iff {a b c : Quantity bits} :
    a.sub? b = some c ↔ b.val ≤ a.val ∧ c.val = a.val - b.val := by
  unfold sub?
  split
  · rename_i h
    constructor
    · intro e
      cases e
      exact ⟨h, rfl⟩
    · rintro ⟨-, e⟩
      exact congrArg some (ext e.symm)
  · rename_i h
    exact ⟨fun e => (nomatch e), fun e => absurd e.1 h⟩

/-- A saturating sum is the sum, cut off at the largest quantity. -/
@[simp] theorem saturatingAdd_val (a b : Quantity bits) :
    (a.saturatingAdd b).val = min (a.val + b.val) (1 <<< bits - 1) := rfl

end Quantity

/-- What is said where a sum leaves its range and no refusal foresees it. -/
def Quantity.overflowMessage : String := "attempt to add with overflow"

/-- An amount of tokens in raw units: a balance, a voting power, a tally or a threshold. -/
abbrev Amount := Quantity 128

end TokenGovernance
