/-
# The timelock

A proposal that succeeded is armed first and executed later. Arming fixes the earliest time of
execution, one execution delay ahead; until then a call waits, and from then on it runs the action.
A proposal that stays armed for another execution delay expires.
-/

import TokenGovernance.Fault

namespace TokenGovernance
namespace Timelock

/-- What a call for execution does. -/
inductive Step where
  /-- Not armed yet: arm it with this earliest time of execution. -/
  | arm (eta : Timestamp)
  /-- Armed, but not due. -/
  | wait (eta : Timestamp)
  /-- Armed and due. -/
  | run (eta : Timestamp)
deriving DecidableEq

/-- The next step of a proposal. It is refused unless the proposal succeeded or is queued. -/
def nextStep (p : Proposal) (now : Timestamp) (parameters : Parameters) : Except Fault Step :=
  match p.phase now parameters, p.armedAt with
  | .succeeded, none => Step.arm <$> Fault.orOverflow (now.after? parameters.executionDelay)
  | .queued, some eta => if eta ≤ now then .ok (.run eta) else .ok (.wait eta)
  | phase, _ => .error (.invalidPhase p.id phase .execute)

end Timelock
end TokenGovernance
