/-
# Delegation

Every account votes for itself until it names another delegate. Naming a delegate moves what the
account holds out of the power of the old delegate and into that of the new one, both at the
instant of the change; an account that votes for itself gives its power to nobody.

The directory keeps the current delegate of each account, the history of its delegates, which tells
who its delegate was at the snapshot of a proposal, the accounts that currently delegate to each
delegate, and the power of each delegate over time.
-/

import TokenGovernance.Ledger
import TokenGovernance.Procedure

namespace TokenGovernance

/-- The current delegate of an account, and since when. -/
structure Delegation where
  delegate : Account
  changedAt : Timestamp
deriving DecidableEq

/-- A change of delegate that was made. -/
structure Redelegation where
  delegator : Account
  source : Account
  target : Account
  /-- What was moved between the two delegates. -/
  amount : Amount
deriving DecidableEq

/-- Who votes with whose tokens. -/
structure Directory where
  /-- The current delegation of each account that ever named a delegate. -/
  records : AccountMap Delegation := ∅
  /-- The delegates of each account over time. -/
  histories : AccountMap (History Account) := ∅
  /-- The accounts that currently delegate to each delegate. -/
  delegators : AccountMap AccountSet := ∅
  /-- What is delegated to each delegate over time. -/
  power : Ledger := {}

namespace Directory

/-- The current delegate of an account: itself if it never named one. -/
def currentDelegate (d : Directory) (a : Account) : Account :=
  match d.records[a]? with
  | some r => r.delegate
  | none => a

/-- The history of the delegates of an account. -/
def history (d : Directory) (a : Account) : History Account := d.histories[a]?.getD {}

/-- The delegate of an account at an instant. -/
def delegateAt (d : Directory) (a : Account) (time : Timestamp) : Account :=
  ((d.history a).lookup time).value?.getD a

/-- What is delegated to an account at an instant. -/
def delegatedPowerAt (d : Directory) (a : Account) (time : Timestamp) : Amount :=
  d.power.valueAt a time

/-- The accounts that currently delegate to an account, in order. -/
def delegatorsOf (d : Directory) (a : Account) : List Account :=
  (d.delegators[a]?.getD ∅).toList

/-- Refuses a change of delegate that one of the three histories involved would not take. -/
def checkOrder (d : Directory) (delegator source target : Account) (now : Timestamp) :
    Except Fault Unit := do
  d.power.checkOrder source now
  d.power.checkOrder target now
  match (d.history delegator).latest? with
  | some last =>
    if now < last.time then throw (.checkpointOutOfOrder delegator now last.time)
  | none => return

/-- Takes an account off the list of a delegate. A list that becomes empty is dropped. -/
def unlink (d : Directory) (delegator source : Account) : Directory :=
  match d.delegators[source]? with
  | none => d
  | some accounts =>
    let rest := accounts.erase delegator
    { d with
      delegators :=
        if rest.isEmpty then d.delegators.erase source else d.delegators.insert source rest }

/-- Puts an account on the list of a delegate. -/
def link (d : Directory) (delegator target : Account) : Directory :=
  { d with
    delegators :=
      d.delegators.insert target ((d.delegators[target]?.getD ∅).insert delegator) }

/-- Records the power of a delegate. -/
def recordPower (a : Account) (value : Amount) (now : Timestamp) : Procedure Directory Unit := do
  let power ← (← get).power.record a value now
  modify ({ · with power })

/-- Records who the delegate of an account is from now on. -/
def recordDelegate (delegator target : Account) (now : Timestamp) :
    Procedure Directory Unit := do
  modify fun d => { d with records := d.records.insert delegator ⟨target, now⟩ }
  match ((← get).history delegator).push now target with
  | .ok history =>
    modify fun d => { d with histories := d.histories.insert delegator history }
  | .error latest => throw (.checkpointOutOfOrder delegator now latest)

/-- Makes `target` the delegate of `delegator`, who holds `balance`. Nothing happens if it is the
delegate already. -/
def delegate (delegator target : Account) (balance : Amount) (now : Timestamp) :
    Procedure Directory (Option Redelegation) := do
  let d ← get
  let source := d.currentDelegate delegator
  if source = target then
    return none
  let debit? ←
    if source = delegator then pure none
    else some <$> Fault.orOverflow ((d.power.latestValue source).sub? balance)
  let credit? ←
    if target = delegator then pure none
    else some <$> Fault.orOverflow ((d.power.latestValue target).add? balance)
  d.checkOrder delegator source target now
  if let some remaining := debit? then
    recordPower source remaining now
  if let some total := credit? then
    recordPower target total now
  modify (·.unlink delegator source)
  if target ≠ delegator then
    modify (·.link delegator target)
  recordDelegate delegator target now
  return some ⟨delegator, source, target, balance⟩

/-- Carries a change of what `delegator` holds over to the power of its delegate. -/
def balanceChanged (delegator : Account) (old new : Amount) (now : Timestamp) :
    Procedure Directory Unit := do
  let d ← get
  let delegate := d.currentDelegate delegator
  if delegate = delegator ∨ old = new then
    return
  let power ←
    if old < new then d.power.increase delegate (new.saturatingSub old) now
    else d.power.decrease delegate (old.saturatingSub new) now
  modify ({ · with power })

end Directory
end TokenGovernance
