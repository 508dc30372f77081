/-
# Votes are counted

The votes are kept in one place and the tally of a proposal in another, and a call for a vote
writes both. `State.Tallied` says that the two agree: each column of a tally is the exact weight of
the votes that took its side, and every vote was cast on a proposal, with weight, inside the
window. Together with the registry, which gives a number once, it is kept by every call.

A vote that was recorded stays as it is (`Engine.Answered.vote?_eq`), so nobody votes twice.
-/

import TokenGovernance.Host.Rehearsal
import TokenGovernance.Proofs.Engine.Registry

namespace TokenGovernance

/-- Whether a proposal can have been given a vote: one with weight, cast inside the window. -/
structure Proposal.Admits (p : Proposal) (vote : Vote) : Prop where
  weighty : 0 < vote.weight.val
  opened : p.startTime ≤ vote.castAt
  closed : vote.castAt ≤ p.endTime

/-- What a proposal admits depends on its window alone. -/
theorem Proposal.Admits.of_window {p p' : Proposal} {vote : Vote} (h : p.Admits vote)
    (hs : p'.startTime = p.startTime) (he : p'.endTime = p.endTime) : p'.Admits vote :=
  ⟨h.weighty, hs ▸ h.opened, he ▸ h.closed⟩

/-- **The tallies are what the votes add up to.** -/
structure State.Tallied (s : State) : Prop where
  column : ∀ {id : ProposalId} {p : Proposal}, s.proposals[id]? = some p →
    ∀ side, (p.tally.column side).val = s.votes.weightOn id side
  admitted : ∀ {id : ProposalId} {a : Account} {vote : Vote}, s.votes.vote? id a = some vote →
    ∃ p, s.proposals[id]? = some p ∧ p.Admits vote

/-- Without votes all tallies are zero. -/
theorem State.tallied_empty : ({} : State).Tallied where
  column h := by simp at h
  admitted h := by simp [VoteBook.vote?, VoteBook.ballots] at h

namespace State.Tallied

variable {s s' : State} {id : ProposalId} {p p' : Proposal} {voter : Account} {vote : Vote}

/-- A change of a record that leaves tally and window alone. -/
theorem replace (h : s.Tallied) (found : s.proposals[id]? = some p)
    (hp : s'.proposals = s.proposals.insert id p') (hv : s'.votes = s.votes)
    (ht : p'.tally = p.tally) (hs : p'.startTime = p.startTime) (he : p'.endTime = p.endTime) :
    s'.Tallied := by
  constructor
  · intro i q hq side
    rw [hp, getElem?_insert_proposal] at hq
    rw [hv]
    split at hq
    · rename_i hi
      subst hi
      cases hq
      rw [ht]
      exact h.column found side
    · exact h.column hq side
  · intro i a vote hvote
    rw [hv] at hvote
    obtain ⟨q, hq, hadmits⟩ := h.admitted hvote
    rw [hp, getElem?_insert_proposal]
    by_cases hi : i = id
    · subst hi
      rw [found] at hq
      cases hq
      exact ⟨p', if_pos rfl, hadmits.of_window hs he⟩
    · exact ⟨q, by rw [if_neg hi, hq], hadmits⟩

/-- A new proposal has no votes: every vote belongs to a proposal, and there was none with this
number. -/
theorem create (h : s.Tallied) (new : s.proposals[id]? = none)
    (hp : s'.proposals = s.proposals.insert id p) (hv : s'.votes = s.votes)
    (ht : p.tally = {}) : s'.Tallied := by
  have hnone (a : Account) : s.votes.vote? id a = none := by
    rcases hvote : s.votes.vote? id a with _ | vote
    · rfl
    · obtain ⟨q, hq, -⟩ := h.admitted hvote
      rw [new] at hq
      cases hq
  constructor
  · intro i q hq side
    rw [hp, getElem?_insert_proposal] at hq
    rw [hv]
    split at hq
    · rename_i hi
      subst hi
      cases hq
      rw [ht, VoteBook.weightOn_eq_zero hnone]
      cases side <;> rfl
    · exact h.column hq side
  · intro i a vote hvote
    rw [hv] at hvote
    obtain ⟨q, hq, hadmits⟩ := h.admitted hvote
    have hi : i ≠ id := fun e => by
      rw [e, new] at hq
      cases hq
    exact ⟨q, by rw [hp, getElem?_insert_proposal, if_neg hi, hq], hadmits⟩

/-- A vote is added to the book and to its column. -/
theorem count (h : s.Tallied) (found : s.proposals[id]? = some p)
    (unvoted : s.votes.vote? id voter = none) (admits : p.Admits vote)
    (hp : s'.proposals = s.proposals.insert id p') (hv : s'.votes = s.votes.put id voter vote)
    (ht : ∀ side, (p'.tally.column side).val =
      (p.tally.column side).val + if vote.support = side then vote.weight.val else 0)
    (hs : p'.startTime = p.startTime) (he : p'.endTime = p.endTime) : s'.Tallied := by
  constructor
  · intro i q hq side
    rw [hp, getElem?_insert_proposal] at hq
    rw [hv, VoteBook.weightOn_put unvoted]
    split at hq
    · rename_i hi
      subst hi
      cases hq
      rw [ht, h.column found]
      simp only [true_and]
    · rename_i hi
      rw [h.column hq, if_neg fun h => hi h.1, Nat.add_zero]
  · intro i a v hvote
    rw [hv, VoteBook.vote?_put] at hvote
    rw [hp, getElem?_insert_proposal]
    by_cases hi : i = id
    · subst hi
      refine ⟨p', if_pos rfl, ?_⟩
      split at hvote
      · cases hvote
        exact admits.of_window hs he
      · obtain ⟨q, hq, hadmits⟩ := h.admitted hvote
        rw [found] at hq
        cases hq
        exact hadmits.of_window hs he
    · rw [if_neg fun h => hi h.1] at hvote
      obtain ⟨q, hq, hadmits⟩ := h.admitted hvote
      exact ⟨q, by rw [if_neg hi, hq], hadmits⟩

end State.Tallied

namespace Engine

variable {host : Host} {e e' : Engine} {c : Call} {answer : Answer} {id : ProposalId}
  {a : Account} {vote : Vote}

/-- An answered call keeps the votes counted. -/
theorem Answered.tallied (h : Answered host e c answer e') (hr : e.state.Registered)
    (ht : e.state.Tallied) : e'.state.Tallied := by
  induction h with
  | undelegate _ ih => exact ih
  | create _ _ _ _ _ next => exact ht.create (hr.fresh next) rfl rfl rfl
  | cancel _ found => exact ht.replace found rfl rfl rfl rfl rfl
  | @vote voter id support reason now p tally _ found unvoted active weighty counted =>
    obtain ⟨-, -, hopened, hclosed⟩ := Proposal.phase_eq_active_iff.1 active
    exact ht.count found unvoted ⟨weighty, hopened, hclosed⟩ rfl rfl (Tally.column_of_cast counted)
      rfl rfl
  | arm _ found => exact ht.replace found rfl rfl rfl rfl rfl
  | invoke _ found => exact ht.replace found rfl rfl rfl rfl rfl
  | amend _ found => exact ht.replace found rfl rfl rfl rfl rfl
  | _ => exact ⟨ht.column, ht.admitted⟩

/-- **The tallies of a reachable engine are what the votes add up to.** -/
theorem Reachable.tallied (h : e.Reachable) : e.state.Tallied :=
  (h.invariant (P := fun e => e.state.Registered ∧ e.state.Tallied)
    ⟨State.registered_empty, State.tallied_empty⟩
    fun _ _ _ _ _ ha hp => ⟨ha.registered hp.1, ha.tallied hp.1 hp.2⟩).2

/-- **A vote that was recorded stays as it is.** -/
theorem Answered.vote?_eq (h : Answered host e c answer e')
    (hv : e.state.votes.vote? id a = some vote) : e'.state.votes.vote? id a = some vote := by
  induction h with
  | undelegate _ ih => exact ih
  | @vote voter i support reason now p tally _ _ unvoted =>
    show (e.state.votes.put i voter _).vote? id a = some vote
    rw [VoteBook.vote?_put, if_neg]
    · exact hv
    · rintro ⟨rfl, rfl⟩
      rw [unvoted] at hv
      cases hv
  | _ => exact hv

/-- Whatever is called later, a recorded vote is still there. -/
theorem vote?_run (hv : e.state.votes.vote? id a = some vote) (calls : List (Host × Call)) :
    (e.run calls).state.votes.vote? id a = some vote :=
  run_invariant (P := fun e => e.state.votes.vote? id a = some vote) hv
    (fun _ _ _ _ _ h hv => h.vote?_eq hv) calls

/-- Whoever was given a vote had none before. -/
theorem Answered.unvoted {support : Support} {reason : String} {now : Timestamp}
    (h : Answered host e (.vote a id support reason now) answer e') :
    e.state.votes.vote? id a = none := by
  cases h with
  | vote _ _ unvoted => exact unvoted

/-- Who has voted on a proposal is refused from then on. -/
theorem Reachable.answer_vote (h : e.Reachable) (hv : e.state.votes.vote? id a = some vote)
    (host : Host) (support : Support) (reason : String) (now : Timestamp) :
    (Turn.mk e host (.vote a id support reason now)).answer = .error (.alreadyVoted id a) := by
  obtain ⟨p, found, -⟩ := h.tallied.admitted hv
  have initialized := h.registered.initialized found
  rcases (Turn.mk e host (.vote a id support reason now)).answered_or_refused with
    ⟨answer, -, ha⟩ | ⟨f, hf, -, hr⟩
  · have unvoted := ha.unvoted
    simp only [hv, reduceCtorEq] at unvoted
  · rw [hf]
    cases hr with
    | notInitialized _ before => simp [initialized] at before
    | unknown named missing =>
      cases named
      simp [found] at missing
    | votedAlready => rfl
    | closed _ unvoted => simp [hv] at unvoted
    | weightless _ unvoted => simp [hv] at unvoted
    | uncountable _ unvoted => simp [hv] at unvoted

/-- **Every tally is the exact sum of the votes, and a vote is cast once and for all.** -/
theorem Reachable.votes_counted (h : e.Reachable) :
    (∀ id p side, e.state.proposals[id]? = some p →
      (p.tally.column side).val = e.state.votes.weightOn id side) ∧
    (∀ id a vote, e.state.votes.vote? id a = some vote →
      ∃ p, e.state.proposals[id]? = some p ∧ 0 < vote.weight.val ∧
        p.startTime ≤ vote.castAt ∧ vote.castAt ≤ p.endTime) ∧
    (∀ id, ((e.state.votes.votesOn id).map Prod.fst).Nodup ∧
      ∀ a vote, (a, vote) ∈ e.state.votes.votesOn id ↔
        e.state.votes.vote? id a = some vote) ∧
    ∀ id a vote later, e.state.votes.vote? id a = some vote →
      (e.run later).state.votes.vote? id a = some vote ∧
      ∀ host support reason now,
        (Turn.mk (e.run later) host (.vote a id support reason now)).answer =
          .error (.alreadyVoted id a) := by
  refine ⟨fun id p side found => h.tallied.column found side, fun id a vote hv => ?_,
    fun id => ⟨VoteBook.nodup_voters _ id, fun a vote => VoteBook.mem_votesOn⟩,
    fun id a vote later hv => ?_⟩
  · obtain ⟨p, found, hadmits⟩ := h.tallied.admitted hv
    exact ⟨p, found, hadmits.weighty, hadmits.opened, hadmits.closed⟩
  · have hkept := vote?_run hv later
    exact ⟨hkept, (h.run later).answer_vote hkept⟩

/-- One vote is counted once, whatever becomes of the balance behind it. -/
theorem votes_counted_of_one :
    let alice : Account := ⟨"civ_alice", by decide⟩
    let foundation : Account := ⟨"civ_foundation", by decide⟩
    let host := Rehearsal.host { owner := foundation }
    let e := run {} [
      (host, .setUp foundation { votingDelay := .zero }),
      (host, .recordBalance alice ⟨5, by decide⟩ ⟨⟨1, by decide⟩⟩),
      (host, .create alice ⟨"raise", "", .external foundation, [1], .zero⟩ ⟨⟨2, by decide⟩⟩),
      (host, .vote alice .first .inFavor "" ⟨⟨2, by decide⟩⟩)]
    let later := [(host, .recordBalance alice ⟨9, by decide⟩ ⟨⟨3, by decide⟩⟩)]
    e.state.votes.weightOn .first .inFavor = 5 ∧
      (Turn.mk (e.run later) host
        (.vote alice .first .against "" ⟨⟨3, by decide⟩⟩)).answer =
        .error (.alreadyVoted .first alice) := by
  intro alice foundation host e later
  have hreachable : e.Reachable := reachable_run _
  obtain ⟨hcolumn, -, -, hkept⟩ := Reachable.votes_counted hreachable
  have hfive : e.state.proposals[ProposalId.first]?.map (·.tally.inFavor.val) = some 5 := by
    decide +kernel
  obtain ⟨p, found, hp⟩ := Option.map_eq_some_iff.1 hfive
  have hvoted : (e.state.votes.vote? .first alice).isSome = true := by decide +kernel
  obtain ⟨vote, hv⟩ := Option.isSome_iff_exists.1 hvoted
  exact ⟨(hcolumn .first p .inFavor found).symm.trans hp, (hkept _ _ _ later hv).2 _ _ _ _⟩

end Engine
end TokenGovernance
