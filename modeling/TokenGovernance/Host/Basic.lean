/-
# The host

The engine moves no tokens, carries out no outside action and does not decide who the owner is. It
asks the host, and it announces what it does.
-/

import TokenGovernance.Amendment
import TokenGovernance.Proposal.Basic

namespace TokenGovernance

/-- An outside action that a proposal asks for. -/
structure Invocation where
  target : Account
  payload : ByteString
  value : Amount
deriving DecidableEq

/-- What the host answers during one call. -/
structure Host where
  /-- What an account holds right now. -/
  balance : Account → Amount
  /-- Whether an account is the privileged owner. -/
  isOwner : Account → Bool
  /-- What an outside action returns. -/
  invoke : Invocation → Except ExecutorFault ByteString

/-- What the engine announces. Nothing flows back. -/
inductive Event where
  | proposalCreated (id : ProposalId) (proposer : Account) (target : Target)
      (contentHash : Digest) (startTime endTime : Timestamp)
  | proposalCanceled (id : ProposalId) (caller : Account)
  | proposalQueued (id : ProposalId) (eta : Timestamp)
  | proposalExecuted (id : ProposalId)
  | voteCast (id : ProposalId) (voter : Account) (support : Support) (weight : Amount)
      (reason : String)
  | delegateChanged (delegator source target : Account)
  | parametersUpdated (parameters : Parameters)
deriving DecidableEq

end TokenGovernance
