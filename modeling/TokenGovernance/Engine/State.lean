/-
# The state of the engine

What the engine knows, and what can be read off it. Voting power at an instant is held by the
delegate an account had then: if that is the account itself, its power is what it held; otherwise
it is all that was delegated to the delegate. An account that nothing was ever recorded for holds
what the host says it holds now.
-/

import TokenGovernance.Binary.Records
import TokenGovernance.Host.Basic
import TokenGovernance.Timelock

namespace TokenGovernance

/-- What the engine knows. -/
structure State where
  initialized : Bool := false
  parameters : Parameters := {}
  /-- How many proposals were created; the last one has this number. -/
  proposalCount : Quantity 64 := .zero
  proposals : Std.ExtTreeMap ProposalId Proposal := ∅
  votes : VoteBook := {}
  /-- What each account holds, over time. -/
  held : Ledger := {}
  delegation : Directory := {}

namespace State

/-- The proposal with a number. -/
def proposal (s : State) (id : ProposalId) : Except Fault Proposal :=
  match s.proposals[id]? with
  | some p => .ok p
  | none => .error (.proposalNotFound id)

/-- All proposals, by number. -/
def allProposals (s : State) : List Proposal := s.proposals.toList.map Prod.snd

/-- The phase of a proposal at `now`. -/
def phase (s : State) (id : ProposalId) (now : Timestamp) : Except Fault Phase := do
  let p ← s.proposal id
  return p.phase now s.parameters

/-- What an account held at an instant: what the host says, if nothing was ever recorded for it,
and nothing before the first record. -/
def balanceAt (s : State) (host : Host) (a : Account) (time : Timestamp) : Amount :=
  match s.held.lookup a time with
  | .found balance => balance
  | .beforeHistory => .zero
  | .noHistory => host.balance a

/-- What was delegated to an account at an instant. -/
def delegatedPowerAt (s : State) (a : Account) (time : Timestamp) : Amount :=
  s.delegation.delegatedPowerAt a time

/-- The voting power of an account at an instant. -/
def votingPowerAt (s : State) (host : Host) (a : Account) (time : Timestamp) : Amount :=
  let delegate := s.delegation.delegateAt a time
  if delegate = a then s.balanceAt host a time else s.delegatedPowerAt delegate time

/-- Refuses whatever needs parameters before they are given. -/
def checkInitialized (s : State) : Except Fault Unit :=
  if s.initialized then .ok () else .error .notInitialized

end State
end TokenGovernance
