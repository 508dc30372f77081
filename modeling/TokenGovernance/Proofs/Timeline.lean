/-
# Delegation over time

The directory keeps the current delegate of an account twice: as a record, which changes read, and
as the last entry of a history, which snapshots read. `Directory.Dated` says that the two agree and
that all histories are in order. Then a change at `now` splits time in two: before `now` every
reading is what it was (`Directory.SamePast`), and from the last change on every reading is the
current one (`Directory.Dated.delegateAt_of_accepts`).

A change writes the power of up to two delegates. What each such write keeps, the change keeps
(`Directory.Movable.power_induction`, `Directory.Carries.power_induction`).
-/

import TokenGovernance.Proofs.Backing
import TokenGovernance.Proofs.Reading

namespace TokenGovernance
namespace Directory

variable {d d' d'' : Directory} {a b delegator target x : Account} {balance old new : Amount}
  {time now : Timestamp}

/-! ### The writes of a change -/

/-- **What every write to the power keeps, a change of delegate keeps.** -/
theorem Movable.power_induction {P : Ledger → Prop} (h : d.Movable delegator target balance now)
    (start : P d.power)
    (write : ∀ l a value, P l → (l.history a).Accepts now → P (l.put a value now)) :
    P (d.redelegated delegator target balance now).power := by
  show P (d.movedPower delegator (d.currentDelegate delegator) target balance now)
  unfold movedPower
  by_cases hs : d.currentDelegate delegator = delegator <;> by_cases ht : target = delegator <;>
    simp only [hs, ht, if_true, if_false]
  · exact start
  · exact write _ _ _ start h.target_order
  · exact write _ _ _ start h.source_order
  · refine write _ _ _ (write _ _ _ start h.source_order) ?_
    exact Ledger.accepts_put h.target_order (Nat.le_refl _) _ _

/-- **What every write to the power keeps, a change of balance keeps.** -/
theorem Carries.power_induction {P : Ledger → Prop} (h : d.Carries delegator old new now d')
    (start : P d.power)
    (write : ∀ l a value, P l → (l.history a).Accepts now → P (l.put a value now)) :
    P d'.power := by
  cases h with
  | kept own => exact start
  | carried delegating differs order exact => exact write _ _ _ start order

/-- The account that moves has its history written to. -/
@[simp] theorem history_redelegated_self (d : Directory) (delegator target : Account)
    (balance : Amount) (now : Timestamp) :
    (d.redelegated delegator target balance now).history delegator =
      (d.history delegator).put now target := by
  simp [redelegated, history]

/-- The history of any other account stays as it was. -/
theorem history_redelegated_of_ne (h : a ≠ delegator) (d : Directory) (target : Account)
    (balance : Amount) (now : Timestamp) :
    (d.redelegated delegator target balance now).history a = d.history a := by
  simp [redelegated, history, SortedMap.getElem?_insert, Ne.symm h]

/-- A change of balance changes no history of delegates. -/
theorem Carries.history_eq (h : d.Carries delegator old new now d') (a : Account) :
    d'.history a = d.history a := by
  cases h <;> rfl

/-! ### Dated directories -/

/-- **The histories are in order and end with the current delegates.** -/
structure Dated (d : Directory) : Prop where
  power : d.power.Ordered
  delegates : ∀ a, (d.history a).Ordered
  current : ∀ a, d.currentDelegate a = ((d.history a).latest?.map (·.value)).getD a

/-- A directory without records is dated. -/
theorem dated_empty : ({} : Directory).Dated where
  power := Ledger.ordered_empty
  delegates a := by simpa [history] using History.ordered_empty
  current a := by simp [currentDelegate, history, History.latest?]

namespace Dated

/-- A change of delegate is dated in the record and in the history. -/
theorem redelegated (h : d.Dated) (movable : d.Movable delegator target balance now) :
    (d.redelegated delegator target balance now).Dated where
  power := movable.power_induction h.power fun _ _ value ho ha => ho.put ha value
  delegates a := by
    by_cases ha : a = delegator
    · rw [ha, history_redelegated_self]
      exact (h.delegates delegator).put movable.own_order target
    · rw [history_redelegated_of_ne ha]
      exact h.delegates a
  current a := by
    by_cases ha : a = delegator
    · rw [ha, currentDelegate_redelegated_self, history_redelegated_self, History.latest?_put]
      rfl
    · rw [currentDelegate_redelegated_of_ne ha, history_redelegated_of_ne ha]
      exact h.current a

/-- A change of balance keeps a directory dated: it changes no delegate. -/
theorem carries (h : d.Dated) (carries : d.Carries delegator old new now d') : d'.Dated where
  power := carries.power_induction h.power fun _ _ value ho ha => ho.put ha value
  delegates a := by
    rw [carries.history_eq]
    exact h.delegates a
  current a := by
    rw [carries.currentDelegate_eq, carries.history_eq]
    exact h.current a

end Dated

/-! ### Before a change -/

/-- **A directory that was changed only after an instant tells of it what it told.** -/
structure SamePast (d d' : Directory) (time : Timestamp) : Prop where
  delegateAt : ∀ a, d'.delegateAt a time = d.delegateAt a time
  power : d.power.SamePast d'.power time

namespace SamePast

/-- Every directory has its own past. -/
theorem refl (d : Directory) (time : Timestamp) : d.SamePast d time :=
  ⟨fun _ => rfl, .refl d.power time⟩

/-- The past is kept over several changes. -/
theorem trans (h : d.SamePast d' time) (h' : d'.SamePast d'' time) : d.SamePast d'' time :=
  ⟨fun a => (h'.delegateAt a).trans (h.delegateAt a), h.power.trans h'.power⟩

/-- What was delegated to an account at the instant is told as before. -/
theorem delegatedPowerAt (h : d.SamePast d' time) (x : Account) :
    d'.delegatedPowerAt x time = d.delegatedPowerAt x time :=
  h.power.valueAt_eq x

end SamePast

/-- What is kept of the power while it is written to after an instant. -/
theorem samePast_step {l₀ l : Ledger} {value : Amount} (ht : time < now)
    (h : l.Ordered ∧ l₀.SamePast l time) (ha : (l.history a).Accepts now) :
    (l.put a value now).Ordered ∧ l₀.SamePast (l.put a value now) time :=
  ⟨h.1.put ha value, h.2.trans (h.1.samePast_put ha ht value)⟩

/-- **A change of delegate changes nothing before it.** -/
theorem Dated.samePast_redelegated (h : d.Dated) (movable : d.Movable delegator target balance now)
    (ht : time < now) : d.SamePast (d.redelegated delegator target balance now) time where
  delegateAt a := by
    unfold Directory.delegateAt
    by_cases ha : a = delegator
    · rw [ha, history_redelegated_self,
        (h.delegates delegator).value?_lookup_put movable.own_order ht]
    · rw [history_redelegated_of_ne ha]
  power :=
    (movable.power_induction (P := fun l => l.Ordered ∧ d.power.SamePast l time)
      ⟨h.power, .refl _ _⟩ fun _ _ _ => samePast_step ht).2

/-- **A change of balance changes nothing before it.** -/
theorem Dated.samePast_carries (h : d.Dated) (carries : d.Carries delegator old new now d')
    (ht : time < now) : d.SamePast d' time where
  delegateAt a := by rw [Directory.delegateAt, carries.history_eq, Directory.delegateAt]
  power :=
    (carries.power_induction (P := fun l => l.Ordered ∧ d.power.SamePast l time)
      ⟨h.power, .refl _ _⟩ fun _ _ _ => samePast_step ht).2

/-! ### Followers at an instant -/

/-- The other accounts whose delegate was `x` at an instant. -/
def followersAt (d : Directory) (x : Account) (time : Timestamp) : Finset Account :=
  d.histories.keys.toFinset.filter fun a => a ≠ x ∧ d.delegateAt a time = x

/-- The followers at an instant are the others whose delegate it was then; an account without a
history is none of them, since it votes for itself. -/
theorem mem_followersAt : a ∈ d.followersAt x time ↔ a ≠ x ∧ d.delegateAt a time = x := by
  refine AccountMap.mem_filter_keys fun hmem h => ?_
  have hempty : d.history a = {} := by
    rw [history, Std.ExtTreeMap.getElem?_eq_none hmem]
    rfl
  have hself : d.delegateAt a time = a := by
    rw [delegateAt, hempty]
    rfl
  exact h.1 (hself.symm.trans h.2)

/-- Where the delegates are the same, the followers are. -/
theorem followersAt_congr {u : Timestamp} (h : ∀ a, d'.delegateAt a time = d.delegateAt a u)
    (x : Account) : d'.followersAt x time = d.followersAt x u := by
  ext a
  rw [mem_followersAt, mem_followersAt, h]

/-- Nobody follows two delegates at an instant. -/
theorem eq_of_mem_followersAt {y : Account} (hx : a ∈ d.followersAt x time)
    (hy : a ∈ d.followersAt y time) : x = y :=
  (mem_followersAt.1 hx).2.symm.trans (mem_followersAt.1 hy).2

/-! ### After the last change -/

/-- At or after its last change the delegate of an account is the current one. -/
theorem Dated.delegateAt_of_accepts (h : d.Dated) (ha : (d.history a).Accepts now) :
    d.delegateAt a now = d.currentDelegate a := by
  rw [delegateAt, (h.delegates a).value?_lookup_of_accepts ha, h.current]

/-- At or after the last change of everybody the followers are the current ones. -/
theorem Dated.followersAt_of_accepts (h : d.Dated) (ha : ∀ a, (d.history a).Accepts now)
    (x : Account) : d.followersAt x now = d.followers x := by
  ext a
  rw [mem_followersAt, mem_followers, h.delegateAt_of_accepts (ha a)]

end Directory
end TokenGovernance
