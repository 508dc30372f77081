/-
# Calls on the engine

The engine is driven by calls, each made against the host of the moment. A call reads, refuses or
writes, announces events, and may carry out one outside action.

| call | who | when |
| --- | --- | --- |
| `setUp` | the owner | once |
| `recordBalance` | the token contract | any time |
| `delegate`, `undelegate` | the account | any time |
| `create` | an account with enough voting power | once set up |
| `cancel` | the proposer or the owner | while pending or active |
| `vote` | an account with voting power at the snapshot | while active, once |
| `execute` | anyone | once succeeded |
| `setParameters` | nobody | never |
-/

import TokenGovernance.Engine.State

namespace TokenGovernance

/-- The engine at work: its state, and what it announced and carried out so far, oldest first. -/
structure Engine where
  state : State := {}
  events : List Event := []
  invocations : List Invocation := []

/-- What a call for execution came to. -/
inductive Outcome where
  /-- The proposal was armed and falls due at `eta`. -/
  | queued (eta : Timestamp)
  /-- The proposal is armed but not due, and nothing changed. -/
  | waiting (eta : Timestamp)
  /-- The action was carried out and returned `output`. -/
  | executed (output : ByteString)
deriving DecidableEq

namespace Engine

/-- Announces an event. -/
def emit (event : Event) : Procedure Engine Unit :=
  modify fun e => { e with events := e.events ++ [event] }

/-- Changes the state. -/
def modifyState (f : State → State) : Procedure Engine Unit :=
  modify fun e => { e with state := f e.state }

/-- A procedure on the delegation directory. -/
def onDelegation {α : Type} (p : Procedure Directory α) : Procedure Engine α :=
  p.within (·.state.delegation) fun d e =>
    { e with state := { e.state with delegation := d } }

/-- Records what an account holds. -/
def recordHeld (account : Account) (balance : Amount) (now : Timestamp) :
    Procedure Engine Unit := do
  let held ← (← get).state.held.record account balance now
  modifyState ({ · with held })

/-- Changes the record of a proposal. -/
def updateProposal (id : ProposalId) (f : Proposal → Proposal) : Procedure Engine Unit := do
  let p ← (← get).state.proposal id
  modifyState fun s => { s with proposals := s.proposals.insert id (f p) }

/-- Gives the engine its parameters, once. -/
def setUp (host : Host) (caller : Account) (parameters : Parameters) :
    Procedure Engine Unit := do
  if (← get).state.initialized then
    throw .alreadyInitialized
  if !host.isOwner caller then
    throw (.notOwner caller)
  parameters.validate
  modifyState ({ · with parameters, initialized := true })

/-- Notes that an account now holds `balance`, and carries the difference over to its delegate. -/
def recordBalance (account : Account) (balance : Amount) (now : Timestamp) :
    Procedure Engine Unit := do
  let s := (← get).state
  s.held.checkOrder account now
  onDelegation (Directory.balanceChanged account (s.held.latestValue account) balance now)
  recordHeld account balance now

/-- Makes `target` the delegate of `delegator`. What an account holds is recorded when it names a
delegate for the first time. -/
def delegate (host : Host) (delegator target : Account) (now : Timestamp) :
    Procedure Engine Unit := do
  let s := (← get).state
  s.held.checkOrder delegator now
  let balance := s.balanceAt host delegator now
  match ← onDelegation (Directory.delegate delegator target balance now) with
  | none => return
  | some change =>
    if !s.held.hasHistory delegator then
      recordHeld delegator balance now
    emit (.delegateChanged change.delegator change.source change.target)

/-- Makes an account vote for itself again. -/
def undelegate (host : Host) (delegator : Account) (now : Timestamp) : Procedure Engine Unit :=
  delegate host delegator delegator now

/-- Refuses a draft whose action could never be carried out. -/
def checkAction (draft : Draft) : Except Fault Unit :=
  match draft.target with
  | .external _ => .ok ()
  | .parameterStore =>
    if !draft.value.isZero then .error (.invalidAction .carriesValue)
    else (Amendment.decode draft.payload).map fun _ => ()

/-- Submits a proposal. Its window opens one voting delay from now. -/
def create (host : Host) (proposer : Account) (draft : Draft) (now : Timestamp) :
    Procedure Engine ProposalId := do
  let s := (← get).state
  s.checkInitialized
  let power := s.votingPowerAt host proposer now
  if power < s.parameters.proposalThreshold then
    throw (.belowProposalThreshold power s.parameters.proposalThreshold)
  checkAction draft
  let startTime ← Fault.orOverflow (now.after? s.parameters.votingDelay)
  let endTime ← Fault.orOverflow (startTime.after? s.parameters.votingPeriod)
  let count ← Fault.orOverflow (s.proposalCount.succ?)
  let id : ProposalId := ⟨count⟩
  let contentHash := draft.contentHash
  let proposal : Proposal :=
    { draft with
      id, proposer, contentHash, startTime, endTime
      tally := {}
      createdAt := now
      executed := false
      canceled := false
      armedAt := none }
  emit (.proposalCreated id proposer draft.target contentHash startTime endTime)
  modifyState fun s =>
    { s with proposals := s.proposals.insert id proposal, proposalCount := count }
  return id

/-- Withdraws a proposal that is not decided yet. -/
def cancel (host : Host) (caller : Account) (id : ProposalId) (now : Timestamp) :
    Procedure Engine Unit := do
  let s := (← get).state
  s.checkInitialized
  let p ← s.proposal id
  if p.proposer ≠ caller ∧ !host.isOwner caller then
    throw (.notProposerOrOwner caller)
  let phase := p.phase now s.parameters
  if phase ≠ .pending ∧ phase ≠ .active then
    throw (.invalidPhase id phase .cancel)
  updateProposal id ({ · with canceled := true })
  emit (.proposalCanceled id caller)

/-- Casts a vote and returns its weight: the voting power of the voter at the snapshot, whenever
inside the window the vote is cast. -/
def vote (host : Host) (voter : Account) (id : ProposalId) (support : Support) (reason : String)
    (now : Timestamp) : Procedure Engine Amount := do
  let s := (← get).state
  s.checkInitialized
  let p ← s.proposal id
  s.votes.checkNotVoted id voter
  let phase := p.phase now s.parameters
  if phase ≠ .active then
    throw (.invalidPhase id phase .vote)
  let weight := s.votingPowerAt host voter p.snapshotTime
  if weight.isZero then
    throw (.zeroWeight voter)
  let tally ← p.tally.cast support weight
  let votes ← s.votes.record id voter ⟨support, weight, reason, now⟩
  modifyState ({ · with votes })
  updateProposal id ({ · with tally })
  emit (.voteCast id voter support weight reason)
  return weight

/-- Carries out an outside action. -/
def invoke (host : Host) (invocation : Invocation) : Procedure Engine ByteString :=
  match host.invoke invocation with
  | .ok output => do
    modify fun e => { e with invocations := e.invocations ++ [invocation] }
    return output
  | .error why => throw (.executionFailed why)

/-- Carries out the action of a proposal. -/
def runAction (host : Host) (p : Proposal) : Procedure Engine ByteString :=
  match p.target with
  | .external target => invoke host ⟨target, p.payload, p.value⟩
  | .parameterStore => do
    if !p.value.isZero then
      throw (.invalidAction .carriesValue)
    let amendment ← Amendment.decode p.payload
    let next ← amendment.apply (← get).state.parameters
    let parameters ← next.replaceBy .governance
    modifyState ({ · with parameters })
    emit (.parametersUpdated parameters)
    return []

/-- Runs a proposal that is due since `eta`. -/
def carryOut (host : Host) (p : Proposal) (id : ProposalId) (eta : Timestamp) :
    Procedure Engine Outcome := do
  let output ← runAction host p
  updateProposal id ({ · with armedAt := some eta, executed := true })
  if p.armedAt.isNone then
    emit (.proposalQueued id eta)
  emit (.proposalExecuted id)
  return .executed output

/-- Arms, awaits or runs a proposal that succeeded. If its action fails the proposal stays as it
is, and the call can be made again. Without an execution delay it runs as soon as it is armed. -/
def execute (host : Host) (id : ProposalId) (now : Timestamp) : Procedure Engine Outcome := do
  let s := (← get).state
  s.checkInitialized
  let p ← s.proposal id
  match ← Timelock.nextStep p now s.parameters with
  | .wait eta => return .waiting eta
  | .run eta => carryOut host p id eta
  | .arm eta =>
    if now < eta then
      updateProposal id ({ · with armedAt := some eta })
      emit (.proposalQueued id eta)
      return .queued eta
    else carryOut host p id eta

/-- Asks for other parameters as an account. -/
def setParameters (caller : Account) (next : Parameters) : Procedure Engine Unit := do
  let parameters ← next.replaceBy (.account caller)
  modifyState ({ · with parameters })

end Engine

/-- A call on the engine. -/
inductive Call where
  | setUp (caller : Account) (parameters : Parameters)
  | recordBalance (account : Account) (balance : Amount) (now : Timestamp)
  | delegate (delegator target : Account) (now : Timestamp)
  | undelegate (delegator : Account) (now : Timestamp)
  | create (proposer : Account) (draft : Draft) (now : Timestamp)
  | cancel (caller : Account) (id : ProposalId) (now : Timestamp)
  | vote (voter : Account) (id : ProposalId) (support : Support) (reason : String)
      (now : Timestamp)
  | execute (id : ProposalId) (now : Timestamp)
  | setParameters (caller : Account) (parameters : Parameters)

/-- What a call returns. -/
inductive Answer where
  | done
  | created (id : ProposalId)
  | weight (amount : Amount)
  | outcome (outcome : Outcome)
deriving DecidableEq

namespace Engine

/-- Makes a call against the host of the moment. -/
def call (host : Host) : Call → Procedure Engine Answer
  | .setUp caller parameters => do
    setUp host caller parameters
    return .done
  | .recordBalance account balance now => do
    recordBalance account balance now
    return .done
  | .delegate delegator target now => do
    delegate host delegator target now
    return .done
  | .undelegate delegator now => do
    undelegate host delegator now
    return .done
  | .create proposer draft now => Answer.created <$> create host proposer draft now
  | .cancel caller id now => do
    cancel host caller id now
    return .done
  | .vote voter id support reason now => Answer.weight <$> vote host voter id support reason now
  | .execute id now => Answer.outcome <$> execute host id now
  | .setParameters caller parameters => do
    setParameters caller parameters
    return .done

/-- The engine after a row of calls, each made against its own host; a refused call is passed
over. -/
def run (e : Engine) (calls : List (Host × Call)) : Engine :=
  calls.foldl (fun e (host, c) => ((call host c).perform e).2) e

end Engine
end TokenGovernance
