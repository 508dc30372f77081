/-
# What a call does

Two relations describe the calls on an engine, apart from the order in which a call does its work.
`Engine.Answered` has a case for each way in which a call can be answered, with everything the call
relied on and the whole engine it leaves; `Engine.Refused` has a case for each check that can
refuse a call, with what the check found:

| call | answered as | refused for |
| --- | --- | --- |
| `setUp` | `setUp` | `setUpTwice`, `notOwner`, `unsound` |
| `recordBalance` | `recordBalance` | `balanceOrder`, `carry` |
| `delegate` | `keepDelegate`, `moveDelegate` | `delegatorOrder`, `move` |
| `create` | `create` | `belowThreshold`, `unusable`, `unrepresentable` |
| `cancel` | `cancel` | `stranger`, `decided` |
| `vote` | `vote` | `votedAlready`, `closed`, `weightless`, `uncountable` |
| `execute` | `wait`, `arm`, `invoke`, `amend` | `notExecutable`, `failed`, `carriesValue`, |
| | | `undecodable`, `inapplicable` |
| `setParameters` | never | `ungoverned` |

`undelegate` is `delegate` to the account itself. The calls on proposals are refused as
`notInitialized` before set-up, and those that name a proposal as `unknown` where there is none.
-/

import TokenGovernance.Engine.Calls
import TokenGovernance.Proofs.Delegation
import TokenGovernance.Proofs.Proposal
import TokenGovernance.Proofs.VoteBook

namespace TokenGovernance

/-- The proposal that a call names. -/
def Call.proposal? : Call → Option ProposalId
  | .cancel _ id _ | .vote _ id _ _ _ | .execute id _ => some id
  | _ => none

/-- Whether a call works on proposals, and so needs parameters. -/
def Call.onProposals : Call → Bool
  | .create .. | .cancel .. | .vote .. | .execute .. => true
  | _ => false

namespace Proposal

/-- A proposal as it is stored first. -/
def submitted (draft : Draft) (id : ProposalId) (proposer : Account)
    (now startTime endTime : Timestamp) : Proposal :=
  { draft with
    id, proposer, startTime, endTime
    contentHash := draft.contentHash
    tally := {}
    createdAt := now
    executed := false
    canceled := false
    armedAt := none }

/-- What is announced about the arming of a proposal that is carried out. -/
def arming (p : Proposal) (id : ProposalId) (eta : Timestamp) : List Event :=
  if p.armedAt.isNone then [.proposalQueued id eta] else []

end Proposal

namespace Engine

/-- **What an answered call relied on and what it leaves.** -/
inductive Answered (host : Host) (e : Engine) : Call → Answer → Engine → Prop where
  | setUp {caller : Account} {parameters : Parameters}
      (first : e.state.initialized = false) (owner : host.isOwner caller = true)
      (sound : parameters.defect? = none) :
      Answered host e (.setUp caller parameters) .done
        { e with state := { e.state with parameters, initialized := true } }
  | recordBalance {account : Account} {balance : Amount} {now : Timestamp} {delegation : Directory}
      (order : (e.state.held.history account).Accepts now)
      (carries : e.state.delegation.Carries account (e.state.held.latestValue account) balance now
        delegation) :
      Answered host e (.recordBalance account balance now) .done
        { e with
          state := { e.state with held := e.state.held.put account balance now, delegation } }
  /-- The target is the delegate already, and nothing changes. -/
  | keepDelegate {delegator target : Account} {now : Timestamp}
      (order : (e.state.held.history delegator).Accepts now)
      (same : e.state.delegation.currentDelegate delegator = target) :
      Answered host e (.delegate delegator target now) .done e
  | moveDelegate {delegator target : Account} {now : Timestamp}
      (order : (e.state.held.history delegator).Accepts now)
      (movable : e.state.delegation.Movable delegator target
        (e.state.balanceAt host delegator now) now) :
      Answered host e (.delegate delegator target now) .done
        { e with
          state := { e.state with
            held :=
              if e.state.held.hasHistory delegator then e.state.held
              else e.state.held.put delegator (e.state.balanceAt host delegator now) now
            delegation := e.state.delegation.redelegated delegator target
              (e.state.balanceAt host delegator now) now }
          events := e.events ++
            [.delegateChanged delegator (e.state.delegation.currentDelegate delegator) target] }
  | undelegate {delegator : Account} {now : Timestamp} {answer : Answer} {e' : Engine}
      (answered : Answered host e (.delegate delegator delegator now) answer e') :
      Answered host e (.undelegate delegator now) answer e'
  | create {proposer : Account} {draft : Draft} {now startTime endTime : Timestamp}
      {count : Quantity 64}
      (initialized : e.state.initialized = true)
      (able : e.state.parameters.proposalThreshold ≤ e.state.votingPowerAt host proposer now)
      (usable : checkAction draft = .ok ())
      (start : startTime.val = now.val + e.state.parameters.votingDelay.val)
      (stop : endTime.val = startTime.val + e.state.parameters.votingPeriod.val)
      (next : count.val = e.state.proposalCount.val + 1) :
      Answered host e (.create proposer draft now) (.created ⟨count⟩)
        { e with
          state := { e.state with
            proposals := e.state.proposals.insert ⟨count⟩
              (.submitted draft ⟨count⟩ proposer now startTime endTime)
            proposalCount := count }
          events := e.events ++
            [.proposalCreated ⟨count⟩ proposer draft.target draft.contentHash startTime endTime] }
  | cancel {caller : Account} {id : ProposalId} {now : Timestamp} {p : Proposal}
      (initialized : e.state.initialized = true) (found : e.state.proposals[id]? = some p)
      (authority : p.proposer = caller ∨ host.isOwner caller = true)
      (undecided : p.phase now e.state.parameters = .pending ∨
        p.phase now e.state.parameters = .active) :
      Answered host e (.cancel caller id now) .done
        { e with
          state := { e.state with
            proposals := e.state.proposals.insert id { p with canceled := true } }
          events := e.events ++ [.proposalCanceled id caller] }
  | vote {voter : Account} {id : ProposalId} {support : Support} {reason : String}
      {now : Timestamp} {p : Proposal} {tally : Tally}
      (initialized : e.state.initialized = true) (found : e.state.proposals[id]? = some p)
      (unvoted : e.state.votes.vote? id voter = none)
      (active : p.phase now e.state.parameters = .active)
      (weighty : 0 < (e.state.votingPowerAt host voter p.snapshotTime).val)
      (counted : p.tally.cast support (e.state.votingPowerAt host voter p.snapshotTime) =
        .ok tally) :
      Answered host e (.vote voter id support reason now)
        (.weight (e.state.votingPowerAt host voter p.snapshotTime))
        { e with
          state := { e.state with
            votes := e.state.votes.put id voter
              ⟨support, e.state.votingPowerAt host voter p.snapshotTime, reason, now⟩
            proposals := e.state.proposals.insert id { p with tally } }
          events := e.events ++ [.voteCast id voter support
            (e.state.votingPowerAt host voter p.snapshotTime) reason] }
  /-- The proposal is armed but not due, and nothing changes. -/
  | wait {id : ProposalId} {now eta : Timestamp} {p : Proposal}
      (initialized : e.state.initialized = true) (found : e.state.proposals[id]? = some p)
      (queued : p.phase now e.state.parameters = .queued) (armed : p.armedAt = some eta)
      (early : now < eta) :
      Answered host e (.execute id now) (.outcome (.waiting eta)) e
  | arm {id : ProposalId} {now eta : Timestamp} {p : Proposal}
      (initialized : e.state.initialized = true) (found : e.state.proposals[id]? = some p)
      (succeeded : p.phase now e.state.parameters = .succeeded)
      (delayed : eta.val = now.val + e.state.parameters.executionDelay.val) (later : now < eta) :
      Answered host e (.execute id now) (.outcome (.queued eta))
        { e with
          state := { e.state with
            proposals := e.state.proposals.insert id { p with armedAt := some eta } }
          events := e.events ++ [.proposalQueued id eta] }
  /-- An outside action is carried out. -/
  | invoke {id : ProposalId} {now eta : Timestamp} {p : Proposal} {target : Account}
      {output : ByteString}
      (initialized : e.state.initialized = true) (found : e.state.proposals[id]? = some p)
      (due : p.Due now e.state.parameters eta) (external : p.target = .external target)
      (success : host.invoke ⟨target, p.payload, p.value⟩ = .ok output) :
      Answered host e (.execute id now) (.outcome (.executed output))
        { state := { e.state with
            proposals := e.state.proposals.insert id
              { p with armedAt := some eta, executed := true } }
          events := e.events ++ p.arming id eta ++ [.proposalExecuted id]
          invocations := e.invocations ++ [⟨target, p.payload, p.value⟩] }
  /-- The parameters are amended. -/
  | amend {id : ProposalId} {now eta : Timestamp} {p : Proposal} {amendment : Amendment}
      {parameters : Parameters}
      (initialized : e.state.initialized = true) (found : e.state.proposals[id]? = some p)
      (due : p.Due now e.state.parameters eta) (internal : p.target = .parameterStore)
      (free : p.value.isZero = true) (decoded : Amendment.decode p.payload = .ok amendment)
      (applied : amendment.apply e.state.parameters = .ok parameters) :
      Answered host e (.execute id now) (.outcome (.executed []))
        { e with
          state := { e.state with
            parameters
            proposals := e.state.proposals.insert id
              { p with armedAt := some eta, executed := true } }
          events := e.events ++ [.parametersUpdated parameters] ++ p.arming id eta ++
            [.proposalExecuted id] }

/-- **Why a call is refused.** -/
inductive Refused (host : Host) (e : Engine) : Call → Fault → Prop where
  | setUpTwice {caller : Account} {parameters : Parameters}
      (again : e.state.initialized = true) :
      Refused host e (.setUp caller parameters) .alreadyInitialized
  | notOwner {caller : Account} {parameters : Parameters} (other : host.isOwner caller = false) :
      Refused host e (.setUp caller parameters) (.notOwner caller)
  | unsound {caller : Account} {parameters : Parameters} {defect : Parameters.Defect}
      (found : parameters.defect? = some defect) :
      Refused host e (.setUp caller parameters) (.invalidParameters (.unsound defect))
  | balanceOrder {account : Account} {balance : Amount} {now : Timestamp} {f : Fault}
      (late : e.state.held.checkOrder account now = .error f) :
      Refused host e (.recordBalance account balance now) f
  | carry {account : Account} {balance : Amount} {now : Timestamp} {f : Fault}
      (order : (e.state.held.history account).Accepts now)
      (refused : e.state.delegation.CarryRefused account (e.state.held.latestValue account) balance
        now f) :
      Refused host e (.recordBalance account balance now) f
  | delegatorOrder {delegator target : Account} {now : Timestamp} {f : Fault}
      (late : e.state.held.checkOrder delegator now = .error f) :
      Refused host e (.delegate delegator target now) f
  | move {delegator target : Account} {now : Timestamp} {f : Fault}
      (order : (e.state.held.history delegator).Accepts now)
      (refused : e.state.delegation.MoveRefused delegator target
        (e.state.balanceAt host delegator now) now f) :
      Refused host e (.delegate delegator target now) f
  | undelegate {delegator : Account} {now : Timestamp} {f : Fault}
      (refused : Refused host e (.delegate delegator delegator now) f) :
      Refused host e (.undelegate delegator now) f
  | notInitialized {c : Call} (works : c.onProposals = true)
      (before : e.state.initialized = false) : Refused host e c .notInitialized
  | unknown {c : Call} {id : ProposalId} (named : c.proposal? = some id)
      (missing : e.state.proposals[id]? = none) : Refused host e c (.proposalNotFound id)
  | belowThreshold {proposer : Account} {draft : Draft} {now : Timestamp}
      (short : e.state.votingPowerAt host proposer now < e.state.parameters.proposalThreshold) :
      Refused host e (.create proposer draft now)
        (.belowProposalThreshold (e.state.votingPowerAt host proposer now)
          e.state.parameters.proposalThreshold)
  | unusable {proposer : Account} {draft : Draft} {now : Timestamp} {f : Fault}
      (bad : checkAction draft = .error f) : Refused host e (.create proposer draft now) f
  /-- The window or the number of the proposal is not representable. -/
  | unrepresentable {proposer : Account} {draft : Draft} {now : Timestamp}
      (far : 1 <<< 64 ≤ now.val + e.state.parameters.votingDelay.val +
          e.state.parameters.votingPeriod.val ∨
        1 <<< 64 ≤ e.state.proposalCount.val + 1) :
      Refused host e (.create proposer draft now) .overflow
  | stranger {caller : Account} {id : ProposalId} {now : Timestamp} {p : Proposal}
      (found : e.state.proposals[id]? = some p) (other : p.proposer ≠ caller)
      (powerless : host.isOwner caller = false) :
      Refused host e (.cancel caller id now) (.notProposerOrOwner caller)
  | decided {caller : Account} {id : ProposalId} {now : Timestamp} {p : Proposal}
      (found : e.state.proposals[id]? = some p)
      (late : p.phase now e.state.parameters ≠ .pending ∧
        p.phase now e.state.parameters ≠ .active) :
      Refused host e (.cancel caller id now)
        (.invalidPhase id (p.phase now e.state.parameters) .cancel)
  | votedAlready {voter : Account} {id : ProposalId} {support : Support} {reason : String}
      {now : Timestamp} (voted : (e.state.votes.vote? id voter).isSome = true) :
      Refused host e (.vote voter id support reason now) (.alreadyVoted id voter)
  | closed {voter : Account} {id : ProposalId} {support : Support} {reason : String}
      {now : Timestamp} {p : Proposal} (found : e.state.proposals[id]? = some p)
      (unvoted : e.state.votes.vote? id voter = none)
      (inactive : p.phase now e.state.parameters ≠ .active) :
      Refused host e (.vote voter id support reason now)
        (.invalidPhase id (p.phase now e.state.parameters) .vote)
  | weightless {voter : Account} {id : ProposalId} {support : Support} {reason : String}
      {now : Timestamp} {p : Proposal} (found : e.state.proposals[id]? = some p)
      (unvoted : e.state.votes.vote? id voter = none)
      (none : (e.state.votingPowerAt host voter p.snapshotTime).val = 0) :
      Refused host e (.vote voter id support reason now) (.zeroWeight voter)
  /-- The side of the vote cannot hold its weight. -/
  | uncountable {voter : Account} {id : ProposalId} {support : Support} {reason : String}
      {now : Timestamp} {p : Proposal} (found : e.state.proposals[id]? = some p)
      (unvoted : e.state.votes.vote? id voter = none)
      (full : 1 <<< 128 ≤ (p.tally.column support).val +
        (e.state.votingPowerAt host voter p.snapshotTime).val) :
      Refused host e (.vote voter id support reason now) .overflow
  | notExecutable {id : ProposalId} {now : Timestamp} {p : Proposal} {f : Fault}
      (found : e.state.proposals[id]? = some p)
      (refused : Timelock.nextStep p now e.state.parameters = .error f) :
      Refused host e (.execute id now) f
  | failed {id : ProposalId} {now eta : Timestamp} {p : Proposal} {target : Account}
      {why : ExecutorFault} (found : e.state.proposals[id]? = some p)
      (due : p.Due now e.state.parameters eta) (external : p.target = .external target)
      (failure : host.invoke ⟨target, p.payload, p.value⟩ = .error why) :
      Refused host e (.execute id now) (.executionFailed why)
  | carriesValue {id : ProposalId} {now eta : Timestamp} {p : Proposal}
      (found : e.state.proposals[id]? = some p) (due : p.Due now e.state.parameters eta)
      (internal : p.target = .parameterStore) (paid : p.value.isZero = false) :
      Refused host e (.execute id now) (.invalidAction .carriesValue)
  | undecodable {id : ProposalId} {now eta : Timestamp} {p : Proposal} {f : Fault}
      (found : e.state.proposals[id]? = some p) (due : p.Due now e.state.parameters eta)
      (internal : p.target = .parameterStore) (bad : Amendment.decode p.payload = .error f) :
      Refused host e (.execute id now) f
  | inapplicable {id : ProposalId} {now eta : Timestamp} {p : Proposal} {amendment : Amendment}
      {f : Fault} (found : e.state.proposals[id]? = some p)
      (due : p.Due now e.state.parameters eta) (internal : p.target = .parameterStore)
      (decoded : Amendment.decode p.payload = .ok amendment)
      (refused : amendment.apply e.state.parameters = .error f) :
      Refused host e (.execute id now) f
  /-- Nobody sets the parameters on their own behalf. -/
  | ungoverned {caller : Account} {parameters : Parameters} :
      Refused host e (.setParameters caller parameters) (.notGovernance caller)

end Engine
end TokenGovernance
