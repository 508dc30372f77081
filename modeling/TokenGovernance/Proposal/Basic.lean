/-
# Proposals

A proposal stores its text, its action, its voting window and its tally. Of its life only three
facts are stored: that it was canceled, that it was executed, and from when on it may be executed.
Every other phase is read off the tally, the current time and the current parameters, so nothing
has to move a proposal along. In this order, the first that holds names the phase:

| condition | phase |
| --- | --- |
| canceled | `canceled` |
| executed | `executed` |
| before the window | `pending` |
| inside the window, both ends included | `active` |
| participation below the quorum | `defeated` |
| no more votes in favor than against | `defeated` |
| not armed | `succeeded` |
| armed, and one execution delay has passed since it fell due | `expired` |
| armed | `queued` |
-/

import Std.Data.ExtTreeMap
import TokenGovernance.Account
import TokenGovernance.Parameters
import TokenGovernance.Digest.Content
import TokenGovernance.Text.Utf8

namespace TokenGovernance

/-- The number of a proposal; the first is number one. -/
structure ProposalId extends Quantity 64
deriving DecidableEq, Inhabited

namespace ProposalId

/-- Two proposals of one number are one proposal. -/
@[ext] theorem ext {a b : ProposalId} (h : a.val = b.val) : a = b := by
  obtain ⟨a⟩ := a
  obtain ⟨b⟩ := b
  exact congrArg mk (Quantity.ext h)

/-- The number of the first proposal. -/
def first : ProposalId := ⟨⟨1, by decide⟩⟩

/-- A proposal is written as its number after a `#`. -/
def render (id : ProposalId) : String := s!"#{id.val}"

instance : Ord ProposalId := ⟨fun a b => compare a.val b.val⟩

instance : Std.TransOrd ProposalId where
  eq_swap := (inferInstance : Std.TransOrd Nat).eq_swap
  isLE_trans := (inferInstance : Std.TransOrd Nat).isLE_trans

instance : Std.LawfulEqOrd ProposalId where
  eq_of_compare h :=
    ext ((inferInstance : Std.LawfulEqOrd Nat).eq_of_compare h)
  compare_self := (inferInstance : Std.LawfulEqOrd Nat).compare_self

end ProposalId

/-- What a proposal acts on. -/
inductive Target where
  /-- The parameters of the engine; the payload is an amendment. -/
  | parameterStore
  /-- Anything outside the engine; the payload is handed on as it is. -/
  | external (account : Account)
deriving DecidableEq

namespace Target

/-- The target in words. No account has the name of the parameter store. -/
def render : Target → String
  | parameterStore => "parameter-store"
  | external account => account.name

end Target

/-- What a proposer submits. -/
structure Draft where
  title : String
  description : String
  target : Target
  payload : ByteString
  value : Amount
deriving DecidableEq

namespace Draft

/-- The fields that the digest of a draft commits to. -/
def fields (d : Draft) : List ByteString :=
  [Utf8.encode d.title, Utf8.encode d.description, Utf8.encode d.target.render, d.payload,
    ByteString.littleEndian 16 d.value.val]

/-- The digest of every field of the draft. -/
def contentHash (d : Draft) : Digest := .ofFields d.fields

end Draft

/-- The side that a vote takes. -/
inductive Support where
  | against
  | inFavor
  | abstain
deriving DecidableEq

namespace Support

/-- All sides, in the order of their codes. -/
def all : List Support := [against, inFavor, abstain]

/-- The code of a side. -/
def code : Support → UInt8
  | against => 0
  | inFavor => 1
  | abstain => 2

/-- The side with a code, if there is one. -/
def ofCode? (code : UInt8) : Option Support := all[code.toNat]?

end Support

/-- The weight of the votes on each side. -/
structure Tally where
  inFavor : Amount := .zero
  against : Amount := .zero
  abstain : Amount := .zero
deriving DecidableEq

namespace Tally

/-- The weight on one side. -/
def column (t : Tally) : Support → Amount
  | .against => t.against
  | .inFavor => t.inFavor
  | .abstain => t.abstain

/-- The participation that counts towards the quorum: all three sides together, or the largest
amount where they are more. -/
def total (t : Tally) : Amount := (t.inFavor.saturatingAdd t.against).saturatingAdd t.abstain

/-- The tally with a vote more, if the side does not overflow. -/
def cast? (t : Tally) (support : Support) (weight : Amount) : Option Tally :=
  match support with
  | .against => (t.against.add? weight).map ({ t with against := · })
  | .inFavor => (t.inFavor.add? weight).map ({ t with inFavor := · })
  | .abstain => (t.abstain.add? weight).map ({ t with abstain := · })

end Tally

/-- A proposal as it is stored. -/
structure Proposal extends Draft where
  id : ProposalId
  proposer : Account
  /-- The digest of the draft. -/
  contentHash : Digest
  tally : Tally
  createdAt : Timestamp
  /-- The first instant of the window, at which the weight of every voter is taken. -/
  startTime : Timestamp
  /-- The last instant of the window. -/
  endTime : Timestamp
  executed : Bool
  canceled : Bool
  /-- The earliest time of execution, once the proposal is armed. -/
  armedAt : Option Timestamp
deriving DecidableEq

/-- Where a proposal stands in its life. -/
inductive Phase where
  /-- The voting window has not begun. -/
  | pending
  /-- The voting window is open. -/
  | active
  /-- Withdrawn for good. -/
  | canceled
  /-- The window closed without a quorum, or without a majority in favor. -/
  | defeated
  /-- The window closed with a quorum and a majority; not armed yet. -/
  | succeeded
  /-- Armed, and waiting for or inside its time of execution. -/
  | queued
  /-- Armed, but not executed in time. -/
  | expired
  /-- Carried out for good. -/
  | executed
deriving DecidableEq

namespace Phase

/-- All phases. -/
def all : List Phase :=
  [pending, active, canceled, defeated, succeeded, queued, expired, executed]

/-- The phase in words. -/
def name : Phase → String
  | pending => "pending"
  | active => "active"
  | canceled => "canceled"
  | defeated => "defeated"
  | succeeded => "succeeded"
  | queued => "queued"
  | expired => "expired"
  | executed => "executed"

end Phase

namespace Proposal

/-- The instant at which the weight of every voter is taken. -/
def snapshotTime (p : Proposal) : Timestamp := p.startTime

/-- The phase of a proposal at `now` under `parameters`. -/
def phase (p : Proposal) (now : Timestamp) (parameters : Parameters) : Phase :=
  if p.canceled then .canceled
  else if p.executed then .executed
  else if now < p.startTime then .pending
  else if now ≤ p.endTime then .active
  else if p.tally.total < parameters.quorumThreshold then .defeated
  else if p.tally.inFavor ≤ p.tally.against then .defeated
  else
    match p.armedAt with
    | none => .succeeded
    | some eta => if eta.hasExpired parameters.executionDelay now then .expired else .queued

end Proposal
end TokenGovernance
