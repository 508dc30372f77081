/-
# Refusals

Every reason for which a call is refused, what is said of it, and the coarse category it falls in:

| category | refusals |
| --- | --- |
| precondition | not set up, set up already, unknown support code, wrong phase |
| | unknown proposal, unsound parameters, unusable action, write into the past |
| authorization | too little voting power, not the proposer or the owner |
| | not the owner, not governance |
| duplicate | voted already |
| zero effect | no weight |
| execution | the action failed |
| arithmetic | overflow |
| storage | the store failed, bytes that are no encoding |
-/

import TokenGovernance.Binary.Codec
import TokenGovernance.Proposal.Basic

namespace TokenGovernance

/-- What can be asked of a proposal only in some phases. -/
inductive Activity where
  | cancel
  | vote
  | execute
deriving DecidableEq

/-- The activity in words. -/
def Activity.name : Activity → String
  | cancel => "cancel"
  | vote => "vote"
  | execute => "execute"

/-- Why parameters are refused. -/
inductive ParametersFault where
  /-- The record as a whole is unsound. -/
  | unsound (defect : Parameters.Defect)
  /-- A value is too large for a length of time. -/
  | tooLarge (parameter : Parameter)
  /-- The text of a configuration is not one. -/
  | unreadable
deriving DecidableEq

/-- What is said of refused parameters. -/
def ParametersFault.message : ParametersFault → String
  | .unsound defect => defect.message
  | .tooLarge parameter => parameter.name ++ " does not fit in u64"
  | .unreadable => "unreadable configuration"

/-- Why the action of a proposal is refused. -/
inductive ActionFault where
  /-- An amendment comes with tokens. -/
  | carriesValue
  /-- The payload is no amendment. -/
  | badAmendment (why : Binary.Fault)
deriving DecidableEq

/-- What is said of a refused action. -/
def ActionFault.message : ActionFault → String
  | .carriesValue => "parameter store calls cannot carry value"
  | .badAmendment why => "bad parameter call: " ++ why.message

/-- Why an action could not be carried out. -/
inductive ExecutorFault where
  | unknownTarget (target : Account)
  | reverted (reason : String)
deriving DecidableEq

/-- What is said of an action that could not be carried out. -/
def ExecutorFault.message : ExecutorFault → String
  | .unknownTarget target => s!"target {target} is not known to the executor"
  | .reverted reason => "action reverted: " ++ reason

/-- What a store keeps. -/
inductive StoreKey where
  /-- The record of a proposal. -/
  | proposal (id : ProposalId)
  /-- A named piece of metadata. -/
  | metadata (name : String)
deriving DecidableEq

/-- The key in words. -/
def StoreKey.name : StoreKey → String
  | proposal id => "proposal " ++ id.render
  | metadata name => name

/-- Why a store failed. -/
inductive StoreFault where
  | notFound (key : StoreKey)
  | backend (reason : String)
  /-- The record under `expected` is that of another proposal. -/
  | misfiled (expected found : ProposalId)
deriving DecidableEq

/-- What is said of a store that failed. -/
def StoreFault.message : StoreFault → String
  | .notFound key => "no record stored under " ++ key.name
  | .backend reason => "storage backend failure: " ++ reason
  | .misfiled expected found =>
    s!"stored governance state is corrupted: record under {expected.render} " ++
      s!"holds proposal {found.render}"

/-- Why a value cannot be written or read. -/
inductive EncodingFault where
  /-- The bytes are no encoding. -/
  | unreadable (why : Binary.Fault)
  /-- The number has no place in the format. -/
  | outOfRange (n : Nat)
deriving DecidableEq

/-- What is said of a value that cannot be written or read. -/
def EncodingFault.message : EncodingFault → String
  | .unreadable why => why.message
  | .outOfRange n => s!"out-of-range value {n}"

/-- Why a call is refused. -/
inductive Fault where
  | notInitialized
  | alreadyInitialized
  | invalidSupport (code : UInt8)
  | invalidPhase (id : ProposalId) (phase : Phase) (activity : Activity)
  | proposalNotFound (id : ProposalId)
  | invalidParameters (why : ParametersFault)
  | invalidAction (why : ActionFault)
  /-- A checkpoint at `time` would precede the latest one of the account. -/
  | checkpointOutOfOrder (account : Account) (time latest : Timestamp)
  | belowProposalThreshold (held need : Amount)
  | notProposerOrOwner (caller : Account)
  | notOwner (caller : Account)
  | notGovernance (caller : Account)
  | alreadyVoted (id : ProposalId) (voter : Account)
  | zeroWeight (voter : Account)
  | executionFailed (why : ExecutorFault)
  | overflow
  | store (why : StoreFault)
  | encoding (why : EncodingFault)
deriving DecidableEq

namespace Fault

/-- The coarse category of a refusal. -/
inductive Category where
  | precondition
  | authorization
  | duplicate
  | zeroEffect
  | execution
  | arithmetic
  | storage
deriving DecidableEq

/-- The category that a refusal falls in. -/
def category : Fault → Category
  | notInitialized | alreadyInitialized | invalidSupport _ | invalidPhase .. | proposalNotFound _
  | invalidParameters _ | invalidAction _ | checkpointOutOfOrder .. => .precondition
  | belowProposalThreshold .. | notProposerOrOwner _ | notOwner _ | notGovernance _ =>
    .authorization
  | alreadyVoted .. => .duplicate
  | zeroWeight _ => .zeroEffect
  | executionFailed _ => .execution
  | overflow => .arithmetic
  | store _ | encoding _ => .storage

/-- What is said of a refusal. -/
def message : Fault → String
  | notInitialized => "governance has not been initialized"
  | alreadyInitialized => "governance is already initialized"
  | invalidSupport code => s!"invalid vote support code {code.toNat} (expected 0, 1 or 2)"
  | invalidPhase id phase activity =>
    s!"proposal {id.render} is {phase.name}; cannot {activity.name}"
  | proposalNotFound id => s!"proposal {id.render} not found"
  | invalidParameters why => "invalid governance parameters: " ++ why.message
  | invalidAction why => "invalid proposal action: " ++ why.message
  | checkpointOutOfOrder account time latest =>
    s!"checkpoint for {account} at {time.render} precedes latest checkpoint at {latest.render}"
  | belowProposalThreshold held need =>
    s!"voting power below proposal threshold: have {held}, need {need}"
  | notProposerOrOwner caller => s!"{caller} is neither the proposer nor the owner"
  | notOwner caller => s!"{caller} is not the owner"
  | notGovernance caller =>
    s!"parameters can only be changed by an executed proposal (caller {caller})"
  | alreadyVoted id voter => s!"{voter} has already voted on proposal {id.render}"
  | zeroWeight voter => s!"{voter} has no voting power at the proposal snapshot"
  | executionFailed why => "execution failed: " ++ why.message
  | overflow => "arithmetic overflow in governance computation"
  | store why => "storage error: " ++ why.message
  | encoding why => "encoding error: " ++ why.message

/-- A result that is missing because a number left its range. -/
def orOverflow {α : Type} : Option α → Except Fault α
  | some a => .ok a
  | none => .error .overflow

/-- The result of reading bytes. -/
def ofReading {α : Type} : Except Binary.Fault α → Except Fault α
  | .ok a => .ok a
  | .error why => .error (.encoding (.unreadable why))

end Fault

/-- Refuses an unsound record. -/
def Parameters.validate (p : Parameters) : Except Fault Unit :=
  match p.defect? with
  | none => .ok ()
  | some defect => .error (.invalidParameters (.unsound defect))

/-- The side with a code. -/
def Support.ofCode (code : UInt8) : Except Fault Support :=
  match Support.ofCode? code with
  | some support => .ok support
  | none => .error (.invalidSupport code)

/-- The tally with a vote more. -/
def Tally.cast (t : Tally) (support : Support) (weight : Amount) : Except Fault Tally :=
  Fault.orOverflow (t.cast? support weight)

end TokenGovernance
