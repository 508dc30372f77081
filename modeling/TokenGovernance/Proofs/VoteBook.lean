/-
# Writing to the vote book

A vote is taken exactly when the voter has not voted on the proposal (`VoteBook.record_eq_ok_iff`),
and then it is the only thing that changes (`VoteBook.vote?_put`). So the weight of the votes on
one side (`VoteBook.weightOn`) grows by the weight of the vote and no more
(`VoteBook.weightOn_put`). The votes of distinct voters make the same book in any order
(`VoteBook.enter_perm`).
-/

import Mathlib.Algebra.GroupWithZero.Nat
import Mathlib.Data.List.Nodup
import TokenGovernance.Proofs.SortedMap
import TokenGovernance.VoteBook

namespace TokenGovernance
namespace VoteBook

variable {b b' : VoteBook} {id i : ProposalId} {voter a : Account} {vote : Vote} {f : Fault}

/-- The book with a vote more. -/
def put (b : VoteBook) (id : ProposalId) (voter : Account) (vote : Vote) : VoteBook :=
  ⟨b.votes.insert id ((b.ballots id).insert voter vote)⟩

/-- The votes on the proposal have one more. -/
@[simp] theorem ballots_put_self (b : VoteBook) (id : ProposalId) (voter : Account) (vote : Vote) :
    (b.put id voter vote).ballots id = (b.ballots id).insert voter vote := by
  simp [put, ballots]

/-- The votes on any other proposal stay as they were. -/
theorem ballots_put_of_ne (h : i ≠ id) (b : VoteBook) (voter : Account) (vote : Vote) :
    (b.put id voter vote).ballots i = b.ballots i := by
  simp [put, ballots, SortedMap.getElem?_insert, Ne.symm h]

/-- **Recording a vote sets the vote of its pair and no other.** -/
theorem vote?_put (b : VoteBook) (id : ProposalId) (voter : Account) (vote : Vote)
    (i : ProposalId) (a : Account) :
    (b.put id voter vote).vote? i a = if i = id ∧ a = voter then some vote else b.vote? i a := by
  unfold vote?
  by_cases hi : i = id
  · subst hi
    simp only [ballots_put_self, SortedMap.getElem?_insert, true_and, eq_comm]
  · simp [ballots_put_of_ne hi, hi]

/-- Votes of two voters can be recorded in either order. -/
theorem put_comm (h : voter ≠ a) (b : VoteBook) (id : ProposalId) (vote vote' : Vote) :
    (b.put id voter vote).put id a vote' = (b.put id a vote').put id voter vote := by
  unfold put
  have hballots (m : AccountMap Vote) : (VoteBook.mk (b.votes.insert id m)).ballots id = m := by
    simp [ballots]
  rw [hballots, hballots, SortedMap.insert_insert, SortedMap.insert_insert,
    SortedMap.insert_comm h]

/-- The book with a row of votes on a proposal more. -/
def enter (b : VoteBook) (id : ProposalId) (entries : List (Account × Vote)) : VoteBook :=
  entries.foldl (fun b entry => b.put id entry.1 entry.2) b

/-- A row of votes is entered in two parts. -/
theorem enter_append (b : VoteBook) (id : ProposalId) (entries later : List (Account × Vote)) :
    b.enter id (entries ++ later) = (b.enter id entries).enter id later :=
  List.foldl_append

/-- **Votes of distinct voters can be recorded in any order.** -/
theorem enter_perm {entries entries' : List (Account × Vote)} (h : entries.Perm entries')
    (distinct : (entries.map Prod.fst).Nodup) (b : VoteBook) (id : ProposalId) :
    b.enter id entries = b.enter id entries' := by
  refine h.foldl_eq' (fun entry hentry entry' hentry' b => ?_) b
  by_cases heq : entry = entry'
  · rw [heq]
  · exact put_comm (fun hv => heq (List.inj_on_of_nodup_map distinct hentry hentry' hv)) ..

/-- A pair may vote when it has no vote yet. -/
theorem checkNotVoted_eq_ok_iff : b.checkNotVoted id voter = .ok () ↔ b.vote? id voter = none := by
  unfold checkNotVoted hasVoted
  rcases b.vote? id voter with _ | v <;> simp

/-- A pair that has a vote may not vote again. -/
theorem checkNotVoted_eq_error_iff :
    b.checkNotVoted id voter = .error f ↔
      (b.vote? id voter).isSome = true ∧ f = .alreadyVoted id voter := by
  unfold checkNotVoted hasVoted
  rcases b.vote? id voter with _ | v <;> simp [eq_comm]

/-- A vote is taken exactly when the pair has none. -/
theorem record_eq_ok_iff :
    b.record id voter vote = .ok b' ↔ b.vote? id voter = none ∧ b' = b.put id voter vote := by
  rw [← checkNotVoted_eq_ok_iff]
  unfold record put
  rcases b.checkNotVoted id voter with f | _ <;>
    simp [bind, Except.bind, pure, Except.pure, eq_comm]

/-- A vote is refused exactly when the pair has one. -/
theorem record_eq_error_iff :
    b.record id voter vote = .error f ↔
      (b.vote? id voter).isSome = true ∧ f = .alreadyVoted id voter := by
  rw [← checkNotVoted_eq_error_iff]
  unfold record
  rcases b.checkNotVoted id voter with f | _ <;> simp [bind, Except.bind, pure, Except.pure]

/-! ### The votes on a proposal -/

/-- The exact weight of the votes on a proposal that took a side. -/
def weightOn (b : VoteBook) (id : ProposalId) (side : Support) : Nat :=
  (((b.votesOn id).filter (·.2.support = side)).map (·.2.weight.val)).sum

/-- The list of votes on a proposal tells the vote of each pair. -/
theorem mem_votesOn : (a, vote) ∈ b.votesOn id ↔ b.vote? id a = some vote :=
  Std.ExtTreeMap.mem_toList_iff_getElem?_eq_some

/-- Nobody has two votes on a proposal. -/
theorem nodup_voters (b : VoteBook) (id : ProposalId) : ((b.votesOn id).map Prod.fst).Nodup := by
  refine List.pairwise_map.2 (Std.ExtTreeMap.distinct_keys_toList.imp fun {x y} h e => ?_)
  rw [e] at h
  exact h Std.ReflCmp.compare_self

/-- No vote is listed twice. -/
theorem nodup_votesOn (b : VoteBook) (id : ProposalId) : (b.votesOn id).Nodup :=
  (List.pairwise_map.1 (b.nodup_voters id)).imp fun h e => h (congrArg Prod.fst e)

/-- A vote that is taken joins the votes on its proposal. -/
theorem votesOn_put_self (h : b.vote? id voter = none) (vote : Vote) :
    ((b.put id voter vote).votesOn id).Perm ((voter, vote) :: b.votesOn id) := by
  have hnew : (voter, vote) ∉ b.votesOn id := fun hm => by
    rw [mem_votesOn.1 hm] at h
    cases h
  refine (List.perm_ext_iff_of_nodup (nodup_votesOn _ _)
    (List.nodup_cons.2 ⟨hnew, nodup_votesOn _ _⟩)).2 fun ⟨a, v⟩ => ?_
  rw [List.mem_cons, mem_votesOn, mem_votesOn, vote?_put]
  by_cases ha : a = voter
  · subst ha
    simp [h, eq_comm]
  · simp [ha]

/-- The votes on any other proposal are listed as before. -/
theorem votesOn_put_of_ne (h : i ≠ id) (b : VoteBook) (voter : Account) (vote : Vote) :
    (b.put id voter vote).votesOn i = b.votesOn i := by
  rw [votesOn, ballots_put_of_ne h, votesOn]

/-- **A vote that is taken adds its weight to its side**, and to nothing else. -/
theorem weightOn_put (h : b.vote? id voter = none) (vote : Vote) (i : ProposalId)
    (side : Support) :
    (b.put id voter vote).weightOn i side =
      b.weightOn i side + if i = id ∧ vote.support = side then vote.weight.val else 0 := by
  unfold weightOn
  by_cases hi : i = id
  · subst hi
    rw [(((votesOn_put_self h vote).filter _).map _).sum_nat, List.filter_cons]
    by_cases hs : vote.support = side
    · simp [hs, Nat.add_comm]
    · simp [hs]
  · rw [votesOn_put_of_ne hi, if_neg fun h => hi h.1, Nat.add_zero]

/-- Where nobody voted, no side has weight. -/
theorem weightOn_eq_zero (h : ∀ a, b.vote? id a = none) (side : Support) :
    b.weightOn id side = 0 := by
  have : b.votesOn id = [] := by
    refine List.eq_nil_iff_forall_not_mem.2 fun ⟨a, v⟩ hm => ?_
    rw [mem_votesOn, h a] at hm
    cases hm
  rw [weightOn, this]
  rfl

end VoteBook
end TokenGovernance
