/-
# The first vote counts

Votes come in one after the other, for any proposals, by any voters, and some of them twice. What
the vote book makes of them is told by the row in which they came in:

| vote book | row |
| --- | --- |
| a vote is refused | its pair of proposal and voter came in before |
| the vote of a pair | the first one that came in for it (`VoteBook.firstVote?`) |
| the number of votes on a proposal | the voters that came in for it, each once |
| the votes on a proposal | the first one of each voter, in the order of the names |

Votes on other proposals do not show in any of it (`VoteBook.ballots_recordAll_filter`).
-/

import Mathlib.Data.Finset.Card
import Mathlib.Data.List.Induction
import TokenGovernance.Proofs.Agreement
import TokenGovernance.Proofs.VoteBook

namespace TokenGovernance
namespace VoteBook

/-- A vote on a proposal, as it comes in. -/
structure Submission where
  id : ProposalId
  voter : Account
  vote : Vote

variable {b : VoteBook} {id : ProposalId} {voter : Account} {row : List Submission}
  {x : Submission}

/-- The book after a vote came in, which is passed over if it is refused. -/
def after (b : VoteBook) (x : Submission) : VoteBook :=
  match b.record x.id x.voter x.vote with
  | .ok b' => b'
  | .error _ => b

/-- The book after a row of votes came in. -/
def recordAll (b : VoteBook) (row : List Submission) : VoteBook := row.foldl after b

/-- Whether a voter came in with a vote on a proposal. -/
def Named (row : List Submission) (id : ProposalId) (voter : Account) : Prop :=
  ∃ x ∈ row, x.id = id ∧ x.voter = voter

/-- The first vote that came in from a voter on a proposal. -/
def firstVote? (row : List Submission) (id : ProposalId) (voter : Account) : Option Vote :=
  (row.find? fun x => x.id = id ∧ x.voter = voter).map Submission.vote

/-- Who came in with a vote on a proposal, as often as that happened. -/
def votersOn (row : List Submission) (id : ProposalId) : List Account :=
  (row.filter (·.id = id)).map Submission.voter

/-- A vote is put into the book if its pair has none there. -/
theorem after_eq (b : VoteBook) (x : Submission) :
    b.after x = if (b.vote? x.id x.voter).isSome then b else b.put x.id x.voter x.vote := by
  unfold after
  split
  · rename_i b' h
    obtain ⟨hnone, rfl⟩ := record_eq_ok_iff.1 h
    rw [hnone]
    rfl
  · rename_i f h
    rw [if_pos (record_eq_error_iff.1 h).1]

/-- The last vote of a row comes in after the others. -/
theorem recordAll_concat (b : VoteBook) (row : List Submission) (x : Submission) :
    b.recordAll (row ++ [x]) = (b.recordAll row).after x :=
  List.foldl_concat ..

/-- **A vote that comes in is that of its pair, if there is none yet**, and of no other pair. -/
theorem vote?_after (b : VoteBook) (x : Submission) (id : ProposalId) (voter : Account) :
    (b.after x).vote? id voter =
      (b.vote? id voter).or (if x.id = id ∧ x.voter = voter then some x.vote else none) := by
  rw [after_eq]
  by_cases hx : x.id = id ∧ x.voter = voter
  · obtain ⟨rfl, rfl⟩ := hx
    rcases hv : b.vote? x.id x.voter with _ | v
    · simp [vote?_put]
    · simp [hv]
  · rw [if_neg hx, Option.or_none]
    split
    · rfl
    · rw [vote?_put, if_neg fun h => hx ⟨h.1.symm, h.2.symm⟩]

/-- **The book has the first vote of each pair.** -/
theorem vote?_recordAll (row : List Submission) (id : ProposalId) (voter : Account) :
    (recordAll {} row).vote? id voter = firstVote? row id voter := by
  induction row using List.reverseRecOn with
  | nil => simp [recordAll, firstVote?, vote?, ballots]
  | append_singleton row x ih =>
    rw [recordAll_concat, vote?_after, ih]
    unfold firstVote?
    rw [List.find?_append, Option.map_or]
    congr 1
    by_cases hx : x.id = id ∧ x.voter = voter <;> simp [hx]

/-- There is a first vote of a voter as soon as the voter came in with any. -/
theorem isSome_firstVote?_iff : (firstVote? row id voter).isSome = true ↔ Named row id voter := by
  simp [firstVote?, Named]

/-- The voters on a proposal are those that came in with a vote on it. -/
theorem mem_votersOn : voter ∈ votersOn row id ↔ Named row id voter := by
  simp [votersOn, Named, and_assoc]

/-- **Votes on other proposals do not show**: those on the proposal alone make the same of it. -/
theorem ballots_recordAll_filter (row : List Submission) (id : ProposalId) :
    (recordAll {} (row.filter (·.id = id))).ballots id = (recordAll {} row).ballots id := by
  refine Std.ExtTreeMap.ext_getElem? fun voter => ?_
  show (recordAll {} _).vote? id voter = (recordAll {} row).vote? id voter
  rw [vote?_recordAll, vote?_recordAll, firstVote?, firstVote?, List.find?_filter]
  congr 2
  funext x
  by_cases hx : x.id = id <;> simp [hx]

/-- The votes on a proposal are in the order of the voters. -/
theorem votesOn_sorted (b : VoteBook) (id : ProposalId) :
    (b.votesOn id).Pairwise fun v w => Utf8.encode v.1.name < Utf8.encode w.1.name :=
  Std.ExtTreeMap.ordered_keys_toList.imp Account.encode_lt

/-- There are as many votes on a proposal as voters came in for it. -/
theorem voteCount_recordAll (row : List Submission) (id : ProposalId) :
    (recordAll {} row).voteCount id = (votersOn row id).toFinset.card := by
  have hsame : (((recordAll {} row).votesOn id).map Prod.fst).toFinset =
      (votersOn row id).toFinset := by
    ext voter
    simp only [List.mem_toFinset, List.mem_map, Prod.exists, mem_votesOn, vote?_recordAll,
      exists_and_right, exists_eq_right, ← Option.isSome_iff_exists, isSome_firstVote?_iff,
      mem_votersOn]
  rw [← hsame, List.toFinset_card_of_nodup (nodup_voters _ id), List.length_map]
  exact Std.ExtTreeMap.length_toList.symm

/-- **The vote book keeps the first vote of each voter on each proposal**, whatever votes come in.
A vote is refused exactly if one of its pair came in before; the vote of a pair is the first that
came in for it, and the pair has voted exactly if there is one; as many votes are counted on a
proposal as voters came in for it; and the votes on it are the first ones of these voters, each
once, in the order of the bytes of their names. Votes on other proposals change nothing of this. -/
theorem first_vote_counts (row : List Submission) (id : ProposalId) :
    let b := recordAll {} row
    (∀ voter vote f, b.record id voter vote = .error f ↔
      Named row id voter ∧ f = .alreadyVoted id voter) ∧
    (∀ voter, b.vote? id voter = firstVote? row id voter ∧
      (b.hasVoted id voter = true ↔ Named row id voter)) ∧
    b.voteCount id = (votersOn row id).toFinset.card ∧
    (∀ voter vote, (voter, vote) ∈ b.votesOn id ↔ firstVote? row id voter = some vote) ∧
    ((b.votesOn id).Pairwise fun v w => Utf8.encode v.1.name < Utf8.encode w.1.name) ∧
    (recordAll {} (row.filter (·.id = id))).ballots id = b.ballots id := by
  intro b
  have hvote (voter : Account) : b.vote? id voter = firstVote? row id voter :=
    vote?_recordAll row id voter
  refine ⟨fun voter vote f => ?_, fun voter => ⟨hvote voter, ?_⟩, voteCount_recordAll row id,
    fun voter vote => ?_, votesOn_sorted b id, ballots_recordAll_filter row id⟩
  · rw [record_eq_error_iff, hvote, isSome_firstVote?_iff]
  · rw [hasVoted, hvote, isSome_firstVote?_iff]
  · rw [mem_votesOn, hvote]

/-- Bob votes before Alice on the first proposal, both come in twice, and Alice votes on another
proposal in between. -/
example :
    let alice : Account := ⟨"civ_alice", by decide⟩
    let bob : Account := ⟨"civ_bob", by decide⟩
    let other : ProposalId := ⟨⟨2, by decide⟩⟩
    let vote (support : Support) : Vote := ⟨support, ⟨5, by decide⟩, "", ⟨⟨1, by decide⟩⟩⟩
    let b := recordAll {} [⟨.first, bob, vote .against⟩, ⟨other, alice, vote .abstain⟩,
      ⟨.first, alice, vote .inFavor⟩, ⟨.first, bob, vote .inFavor⟩, ⟨.first, alice, vote .against⟩]
    b.votesOn .first = [(alice, vote .inFavor), (bob, vote .against)] ∧
      b.votesOn other = [(alice, vote .abstain)] := by
  decide +kernel

end VoteBook
end TokenGovernance
