/-
# Governance parameters

Five values steer the engine, and a version counts how often the record was replaced:

| parameter | meaning | default |
| --- | --- | ---: |
| voting delay | from creation to the start of voting | 1 day |
| voting period | length of the voting window, never zero | 7 days |
| proposal threshold | voting power that a proposer needs | 0 |
| quorum threshold | participation that an outcome needs | 0 |
| execution delay | from arming to execution, and again to expiry | 2 days |

A record is sound when its window is not empty and the three lengths together are representable.
-/

import TokenGovernance.Time

namespace TokenGovernance

/-- The values that steer the engine. -/
structure Parameters where
  /-- From the creation of a proposal to the start of its voting window. -/
  votingDelay : Duration := .days 1
  /-- The length of the voting window. -/
  votingPeriod : Duration := .days 7
  /-- The voting power that a proposer needs. -/
  proposalThreshold : Amount := .zero
  /-- The participation that an outcome needs. -/
  quorumThreshold : Amount := .zero
  /-- From the arming of a proposal to its execution, and from there to its expiry. -/
  executionDelay : Duration := .days 2
  /-- How often the record was replaced. -/
  version : Quantity 64 := .zero
deriving DecidableEq

namespace Parameters

instance : Inhabited Parameters := ⟨{}⟩

/-- What makes a record unsound. -/
inductive Defect where
  /-- The voting window is empty. -/
  | emptyPeriod
  /-- The three lengths of time add up to more than a duration holds. -/
  | spanTooLong
deriving DecidableEq

/-- What is said of an unsound record. -/
def Defect.message : Defect → String
  | .emptyPeriod => "voting period must be non-zero"
  | .spanTooLong => "delay + period + execution delay overflows"

/-- The first defect of a record, if it has one. -/
def defect? (p : Parameters) : Option Defect :=
  if p.votingPeriod.isZero then some .emptyPeriod
  else
    match (p.votingDelay.add? p.votingPeriod).bind (·.add? p.executionDelay) with
    | none => some .spanTooLong
    | some _ => none

end Parameters

/-- One of the five governable values. -/
inductive Parameter where
  | votingDelay
  | votingPeriod
  | proposalThreshold
  | quorumThreshold
  | executionDelay
deriving DecidableEq

namespace Parameter

/-- All governable values, in the order of the record. -/
def all : List Parameter :=
  [votingDelay, votingPeriod, proposalThreshold, quorumThreshold, executionDelay]

/-- The name under which a value is written. -/
def name : Parameter → String
  | votingDelay => "voting_delay_secs"
  | votingPeriod => "voting_period_secs"
  | proposalThreshold => "proposal_threshold"
  | quorumThreshold => "quorum_threshold"
  | executionDelay => "execution_delay_secs"

/-- A number of seconds as a number of the wider range. -/
def widen (d : Duration) : Amount := ⟨d.val, Nat.lt_trans d.val_lt (by decide)⟩

/-- A value of the record, whatever its kind. -/
def read (p : Parameter) (r : Parameters) : Amount :=
  match p with
  | votingDelay => widen r.votingDelay
  | votingPeriod => widen r.votingPeriod
  | proposalThreshold => r.proposalThreshold
  | quorumThreshold => r.quorumThreshold
  | executionDelay => widen r.executionDelay

/-- The record with one value replaced, unless the new one is too large for a length of time. -/
def write? (p : Parameter) (value : Amount) (r : Parameters) : Option Parameters :=
  let seconds? : Option Duration := Quantity.ofNat? value.val
  match p with
  | votingDelay => seconds?.map ({ r with votingDelay := · })
  | votingPeriod => seconds?.map ({ r with votingPeriod := · })
  | proposalThreshold => some { r with proposalThreshold := value }
  | quorumThreshold => some { r with quorumThreshold := value }
  | executionDelay => seconds?.map ({ r with executionDelay := · })

end Parameter
end TokenGovernance
