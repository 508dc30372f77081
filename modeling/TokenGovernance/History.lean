/-
# Histories

A history is a row of checkpoints, each a value and the instant from which it holds. Writing at the
instant of the last checkpoint replaces it, writing later appends, and writing earlier is refused,
so a history that was only written to has strictly increasing times.

| query | answer |
| --- | --- |
| a checkpoint at or before the instant | `found`, with the last such value |
| the first checkpoint is later | `beforeHistory` |
| no checkpoint at all | `noHistory` |

A query halves the row. It stays inside the row whatever the order of the times
(`History.rightmost?` answers with an index of the row), so a history that was read from elsewhere
and is out of order does no harm.
-/

import TokenGovernance.Time

namespace TokenGovernance

/-- A value and the instant from which it holds. -/
structure Checkpoint (α : Type) where
  time : Timestamp
  value : α
deriving DecidableEq

/-- What a history knows of an instant. -/
inductive Lookup (α : Type) where
  /-- The value in effect. -/
  | found (value : α)
  /-- The first checkpoint is later. -/
  | beforeHistory
  /-- There is no checkpoint. -/
  | noHistory
deriving DecidableEq

/-- The value in effect, if there is one. -/
def Lookup.value? {α : Type} : Lookup α → Option α
  | found v => some v
  | beforeHistory | noHistory => none

/-- A row of checkpoints, the earliest first. -/
structure History (α : Type) where
  checkpoints : List (Checkpoint α) := []
deriving DecidableEq

namespace History

variable {α : Type}

/-- The last checkpoint. -/
def latest? (h : History α) : Option (Checkpoint α) := h.checkpoints.getLast?

/-- Writes a value that holds from `time` on. A time before the last checkpoint is refused with
the time of that checkpoint. -/
def push (h : History α) (time : Timestamp) (value : α) : Except Timestamp (History α) :=
  match h.latest? with
  | none => .ok ⟨[⟨time, value⟩]⟩
  | some last =>
    if time < last.time then .error last.time
    else if last.time = time then .ok ⟨h.checkpoints.dropLast ++ [⟨time, value⟩]⟩
    else .ok ⟨h.checkpoints ++ [⟨time, value⟩]⟩

/-- The place in `[low, high]` at which a search by halves for the end of `p` arrives. -/
def bisect {n : Nat} (p : Fin n → Bool) (low high : Nat) (hn : high ≤ n) : Nat :=
  if h : low < high then
    let mid := low + (high - low) / 2
    if p ⟨mid, by omega⟩ then bisect p (mid + 1) high hn else bisect p low mid (by omega)
  else low
termination_by high - low

/-- The search stays inside the range it was given, so what it answers can be used as a place. -/
theorem bisect_le {n : Nat} (p : Fin n → Bool) (low high : Nat) (hn : high ≤ n)
    (hl : low ≤ high) : bisect p low high hn ≤ high := by
  fun_induction bisect p low high hn with
  | case1 low high hn h mid hp ih => exact ih (by omega)
  | case2 low high hn h mid hp ih => exact Nat.le_trans (ih (by omega)) (by omega)
  | case3 => exact hl

/-- The place of a checkpoint at or before `time` that is last or followed by a later one. -/
def rightmost? (cs : List (Checkpoint α)) (time : Timestamp) : Option (Fin cs.length) :=
  let p (i : Fin cs.length) : Bool := (cs.get i).time ≤ time
  match h : bisect p 0 cs.length (Nat.le_refl _) with
  | 0 => none
  | i + 1 => some ⟨i, by have := bisect_le p 0 cs.length (Nat.le_refl _) (Nat.zero_le _); omega⟩

/-- The value in effect at an instant. -/
def lookup (h : History α) (time : Timestamp) : Lookup α :=
  if h.checkpoints.isEmpty then .noHistory
  else
    match rightmost? h.checkpoints time with
    | some i => .found (h.checkpoints.get i).value
    | none => .beforeHistory

end History
end TokenGovernance
