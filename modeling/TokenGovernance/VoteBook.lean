/-
# The vote book

A voter votes at most once on a proposal, and a vote that was recorded stays as it is.
-/

import TokenGovernance.Fault

namespace TokenGovernance

/-- A vote as it was cast. -/
structure Vote where
  support : Support
  weight : Amount
  reason : String
  castAt : Timestamp
deriving DecidableEq

/-- The votes on each proposal, by voter. -/
structure VoteBook where
  votes : Std.ExtTreeMap ProposalId (AccountMap Vote) := ∅

namespace VoteBook

/-- The votes on a proposal. -/
def ballots (b : VoteBook) (id : ProposalId) : AccountMap Vote := b.votes[id]?.getD ∅

/-- The vote of a voter on a proposal. -/
def vote? (b : VoteBook) (id : ProposalId) (voter : Account) : Option Vote :=
  (b.ballots id)[voter]?

/-- Whether a voter has voted on a proposal. -/
def hasVoted (b : VoteBook) (id : ProposalId) (voter : Account) : Bool :=
  (b.vote? id voter).isSome

/-- Refuses a voter who has voted on the proposal. -/
def checkNotVoted (b : VoteBook) (id : ProposalId) (voter : Account) : Except Fault Unit :=
  if b.hasVoted id voter then .error (.alreadyVoted id voter) else .ok ()

/-- Records a vote. -/
def record (b : VoteBook) (id : ProposalId) (voter : Account) (vote : Vote) :
    Except Fault VoteBook := do
  b.checkNotVoted id voter
  return ⟨b.votes.insert id ((b.ballots id).insert voter vote)⟩

/-- The votes on a proposal, in order of the voters. -/
def votesOn (b : VoteBook) (id : ProposalId) : List (Account × Vote) := (b.ballots id).toList

/-- The number of votes on a proposal. -/
def voteCount (b : VoteBook) (id : ProposalId) : Nat := (b.ballots id).size

end VoteBook
end TokenGovernance
