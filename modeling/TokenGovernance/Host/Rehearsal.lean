/-
# A host for rehearsals

A host whose answers are set by hand: a table of balances, a fixed owner, and an executor that
returns the payload it is given, unless it does not know the target or was told to revert.
-/

import TokenGovernance.Host.Basic

namespace TokenGovernance

/-- The settings of a rehearsal. -/
structure Rehearsal where
  owner : Account
  /-- What each account holds; nothing where no entry is. -/
  balances : AccountMap Amount := ∅
  /-- The targets that the executor does not know. -/
  unknownTargets : AccountSet := ∅
  /-- Why the executor reverts, if it does. -/
  revertReason : Option String := none

namespace Rehearsal

/-- Carries out an action by returning its payload. -/
def invoke (r : Rehearsal) (i : Invocation) : Except ExecutorFault ByteString :=
  if r.unknownTargets.contains i.target then .error (.unknownTarget i.target)
  else
    match r.revertReason with
    | some reason => .error (.reverted reason)
    | none => .ok i.payload

/-- The host that answers by these settings. -/
def host (r : Rehearsal) : Host where
  balance a := r.balances[a]?.getD .zero
  isOwner a := a == r.owner
  invoke := r.invoke

end Rehearsal
end TokenGovernance
