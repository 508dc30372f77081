/-
# Ledgers

A ledger keeps a history of amounts for each account. The engine has two: what each account holds,
and what is delegated to it. A missing amount counts as nothing; a write into the past and an
amount out of range are refused.
-/

import TokenGovernance.Fault
import TokenGovernance.History

namespace TokenGovernance

/-- A history of amounts for each account. -/
structure Ledger where
  series : AccountMap (History Amount) := ∅

namespace Ledger

/-- The history of an account. -/
def history (l : Ledger) (a : Account) : History Amount := l.series[a]?.getD {}

/-- The checkpoints of an account. -/
def checkpoints (l : Ledger) (a : Account) : List (Checkpoint Amount) := (l.history a).checkpoints

/-- Whether anything was ever recorded for an account. -/
def hasHistory (l : Ledger) (a : Account) : Bool := !(l.checkpoints a).isEmpty

/-- The last amount of an account. -/
def latestValue (l : Ledger) (a : Account) : Amount :=
  match (l.history a).latest? with
  | some last => last.value
  | none => .zero

/-- What is known of the amount of an account at an instant. -/
def lookup (l : Ledger) (a : Account) (time : Timestamp) : Lookup Amount :=
  (l.history a).lookup time

/-- The amount of an account at an instant. -/
def valueAt (l : Ledger) (a : Account) (time : Timestamp) : Amount :=
  (l.lookup a time).value?.getD .zero

/-- Refuses a write for an account that would go back in time. -/
def checkOrder (l : Ledger) (a : Account) (time : Timestamp) : Except Fault Unit :=
  match (l.history a).latest? with
  | some last =>
    if time < last.time then .error (.checkpointOutOfOrder a time last.time) else .ok ()
  | none => .ok ()

/-- Records the amount of an account from `time` on. -/
def record (l : Ledger) (a : Account) (value : Amount) (time : Timestamp) :
    Except Fault Ledger :=
  match (l.history a).push time value with
  | .ok history => .ok ⟨l.series.insert a history⟩
  | .error latest => .error (.checkpointOutOfOrder a time latest)

/-- Adds to the last amount of an account. -/
def increase (l : Ledger) (a : Account) (delta : Amount) (time : Timestamp) :
    Except Fault Ledger := do
  let value ← Fault.orOverflow ((l.latestValue a).add? delta)
  l.record a value time

/-- Takes from the last amount of an account. -/
def decrease (l : Ledger) (a : Account) (delta : Amount) (time : Timestamp) :
    Except Fault Ledger := do
  let value ← Fault.orOverflow ((l.latestValue a).sub? delta)
  l.record a value time

end Ledger
end TokenGovernance
