/-
# Votes weigh what the snapshot says

A vote is weighed when it is cast, by what is read of the snapshot then. The reading is final once
the snapshot lies in the past, so later calls leave the weight equal to the voting power at the
snapshot (`Engine.Chronological.weight_eq_power`). The first instant of the window is the snapshot
itself and not yet past: a balance that is recorded at that very instant, after a vote, replaces
the one that the vote was weighed by (`Engine.weight_of_unfinished_instant`).
-/

import TokenGovernance.Proofs.Engine.Chronology
import TokenGovernance.Proofs.Engine.Votes

namespace TokenGovernance

namespace Engine

variable {host : Host} {e e' : Engine} {c : Call} {answer : Answer} {time now : Timestamp}
  {calls before later : List (Host × Call)} {id : ProposalId} {p : Proposal} {voter : Account}
  {support : Support} {reason : String} {weight : Amount} {vote : Vote}

/-! ### What a run keeps -/

/-- **A run whose calls on balances and delegations are later than an instant changes nothing that
is read of it.** -/
theorem samePast_run (h : e.Reachable) (calls : List (Host × Call))
    (late : ∀ turn ∈ calls, turn.2.movesPower = true → ∀ now ∈ turn.2.time?, time < now) :
    e.state.SamePast (e.run calls).state time := by
  induction calls generalizing e with
  | nil => exact .refl _ _
  | cons turn calls ih =>
    obtain ⟨host, c⟩ := turn
    have hturn := Turn.samePast (t := ⟨e, host, c⟩) h (late _ List.mem_cons_self)
    have hrest := ih (h.run [(host, c)]) fun turn hmem => late turn (List.mem_cons_of_mem _ hmem)
    exact hturn.trans hrest

/-- A run without calls on balances and delegations leaves the balances alone. -/
theorem held_run (calls : List (Host × Call))
    (other : ∀ turn ∈ calls, turn.2.movesPower = false) :
    (e.run calls).state.held = e.state.held := by
  induction calls generalizing e with
  | nil => rfl
  | cons turn calls ih =>
    obtain ⟨host, c⟩ := turn
    rw [run_cons, ih fun turn hmem => other turn (List.mem_cons_of_mem _ hmem)]
    exact ((Turn.mk e host c).ledgers_eq (other _ List.mem_cons_self)).1

/-- A proposal keeps its window. -/
theorem window_run (h : e.Reachable) (found : e.state.proposals[id]? = some p)
    (calls : List (Host × Call)) :
    ∃ p', (e.run calls).state.proposals[id]? = some p' ∧ p'.startTime = p.startTime ∧
      p'.endTime = p.endTime := by
  refine h.record_run (P := fun q => q.startTime = p.startTime ∧ q.endTime = p.endTime) found
    ⟨rfl, rfl⟩ calls ?_
  rintro t - q q' hchanges ⟨hstart, hend⟩
  obtain ⟨_, hq', -, -, hstart', hend'⟩ := hchanges.fixed
  cases hq'
  exact ⟨hstart'.trans hstart, hend'.trans hend⟩

/-! ### Where a vote comes from -/

/-- A vote is weighed by the voting power at the snapshot, and not before it. -/
theorem voted_of_answer
    (h : (Turn.mk e host (.vote voter id support reason now)).answer = .ok (.weight weight)) :
    ∃ p, e.state.proposals[id]? = some p ∧
      weight = e.state.votingPowerAt host voter p.snapshotTime ∧ p.snapshotTime ≤ now ∧
      (Turn.mk e host (.vote voter id support reason now)).after.state.votes.vote? id voter =
        some ⟨support, weight, reason, now⟩ := by
  rcases (Turn.mk e host (.vote voter id support reason now)).answered_or_refused with
    ⟨answer, hanswer, ha⟩ | ⟨f, hf, -⟩
  · rw [h] at hanswer
    cases hanswer
    generalize (Turn.mk e host (.vote voter id support reason now)).after = e' at ha
    cases ha with
    | @vote _ _ _ _ _ p tally _ found _ active =>
      obtain ⟨-, -, hopened, -⟩ := Proposal.phase_eq_active_iff.1 active
      refine ⟨p, found, rfl, hopened, ?_⟩
      show (e.state.votes.put id voter _).vote? id voter = _
      rw [VoteBook.vote?_put, if_pos ⟨rfl, rfl⟩]
  · rw [h] at hf
    cases hf

/-- A vote that was not there was cast by the call. -/
theorem Answered.voted (h : Answered host e c answer e')
    (new : e.state.votes.vote? id voter = none) (hv : e'.state.votes.vote? id voter = some vote) :
    c = .vote voter id vote.support vote.reason vote.castAt ∧ answer = .weight vote.weight := by
  induction h with
  | undelegate _ ih =>
    have hnone := (ih hv).1
    cases hnone
  | @vote a i support reason now p tally =>
    simp only [VoteBook.vote?_put] at hv
    split at hv
    · rename_i heq
      obtain ⟨rfl, rfl⟩ := heq
      cases hv
      exact ⟨rfl, rfl⟩
    · rw [new] at hv
      cases hv
  | _ => exact absurd (new.symm.trans hv) nofun

/-- **Over a run, every vote was cast by one of its calls**, and was given its weight then. -/
theorem voted_run (calls : List (Host × Call))
    (hv : (run {} calls).state.votes.vote? id voter = some vote) :
    ∃ before host later,
      calls = before ++ (host, .vote voter id vote.support vote.reason vote.castAt) :: later ∧
      (Turn.mk (run {} before) host
        (.vote voter id vote.support vote.reason vote.castAt)).answer =
          .ok (.weight vote.weight) := by
  induction calls using List.reverseRecOn with
  | nil => simp [run, VoteBook.vote?, VoteBook.ballots] at hv
  | append_singleton calls turn ih =>
    obtain ⟨host, c⟩ := turn
    rcases hbefore : (run {} calls).state.votes.vote? id voter with _ | earlier
    · rw [run_concat] at hv
      rcases (Turn.mk (run {} calls) host c).answered_or_refused with
        ⟨answer, hanswer, ha⟩ | ⟨f, -, hkept, -⟩
      · obtain ⟨rfl, rfl⟩ := ha.voted hbefore hv
        exact ⟨calls, host, [], rfl, hanswer⟩
      · rw [hkept, hbefore] at hv
        cases hv
    · have hsame := vote?_run hbefore [(host, c)]
      rw [← run_append, hv] at hsame
      cases hsame
      obtain ⟨before, host', later, rfl, hanswer⟩ := ih hbefore
      exact ⟨before, host', later ++ [(host, c)], by simp, hanswer⟩

/-! ### Weights and voting power -/

/-- In a run in order of time, no call after a call is told an earlier time. -/
theorem Chronological.le_of_later {turn : Host × Call}
    (h : Chronological (before ++ turn :: later)) (hnow : turn.2.time? = some now)
    {next : Host × Call} (hmem : next ∈ later) (htold : next.2.time? = some time) : now ≤ time := by
  rw [List.append_cons] at h
  refine (chronological_append.1 h).2.2 now ?_ time (mem_times.2 ⟨next, hmem, htold⟩)
  exact mem_times.2 ⟨turn, List.mem_append_right _ (List.mem_singleton_self _), hnow⟩

/-- **Votes weigh what the snapshot says**, from then on. A vote by an account with a recorded
balance has the weight that is read as its voting power at the snapshot, right after the vote and
after any later calls in order of time, provided that the vote was cast after the snapshot or that
no later call changes a balance or a delegation at the instant of the snapshot itself. -/
theorem Chronological.weight_eq_power
    (h : Chronological (before ++ (host, .vote voter id support reason now) :: later))
    (answered : (Turn.mk (run {} before) host (.vote voter id support reason now)).answer =
      .ok (.weight weight))
    (known : (run {} before).state.held.hasHistory voter = true) :
    let s := (run {} (before ++ (host, .vote voter id support reason now) :: later)).state
    ∃ p vote, s.proposals[id]? = some p ∧ s.votes.vote? id voter = some vote ∧
      vote.weight = weight ∧
      ((p.snapshotTime < now ∨ ∀ turn ∈ later, turn.2.movesPower = true →
          turn.2.time? ≠ some p.snapshotTime) →
        ∀ host : Host, s.votingPowerAt host voter p.snapshotTime = weight) := by
  intro s
  have hreachable := reachable_run before
  obtain ⟨p, found, rfl, hopened, hvote⟩ := voted_of_answer answered
  have hs : s = ((run {} before).run ((host, .vote voter id support reason now) :: later)).state :=
    congrArg Engine.state (run_append {} before _)
  obtain ⟨p', found', hstart, -⟩ :=
    window_run hreachable found ((host, .vote voter id support reason now) :: later)
  have hkept := vote?_run hvote later
  refine ⟨p', _, hs ▸ found', hs ▸ hkept, rfl, fun hpast host' => ?_⟩
  have hsnapshot : p'.snapshotTime = p.snapshotTime := hstart
  rw [hsnapshot] at hpast ⊢
  have hsame : (run {} before).state.SamePast s p.snapshotTime := by
    rw [hs]
    refine samePast_run hreachable _ fun turn hmem hmoves told htold => ?_
    rcases List.mem_cons.1 hmem with rfl | hmem
    · cases hmoves
    · have hle : now ≤ told := h.le_of_later rfl hmem htold
      rcases hpast with hlt | hother
      · exact Nat.lt_of_lt_of_le hlt hle
      · refine Nat.lt_of_le_of_ne (Nat.le_trans hopened hle) fun heq => ?_
        exact hother turn hmem hmoves (by rw [htold, Timestamp.ext heq])
  exact hsame.votingPowerAt_eq known host host'

/-- A vote at the first instant of the window keeps its weight through a later transfer. -/
theorem weight_eq_power_of_transfer :
    let alice : Account := ⟨"civ_alice", by decide⟩
    let foundation : Account := ⟨"civ_foundation", by decide⟩
    let host := Rehearsal.host { owner := foundation }
    let before : List (Host × Call) := [
      (host, .setUp foundation { votingDelay := ⟨1, by decide⟩ }),
      (host, .recordBalance alice ⟨5, by decide⟩ ⟨⟨1, by decide⟩⟩),
      (host, .create alice ⟨"raise", "", .external foundation, [1], .zero⟩ ⟨⟨1, by decide⟩⟩)]
    let later : List (Host × Call) :=
      [(host, .recordBalance alice ⟨9, by decide⟩ ⟨⟨3, by decide⟩⟩)]
    let s := (run {} (before ++
      (host, .vote alice .first .inFavor "" ⟨⟨2, by decide⟩⟩) :: later)).state
    ∃ p, s.proposals[ProposalId.first]? = some p ∧
      (s.votingPowerAt host alice p.snapshotTime).val = 5 := by
  intro alice foundation host before later s
  have hchronological : Chronological
      (before ++ (host, .vote alice .first .inFavor "" ⟨⟨2, by decide⟩⟩) :: later) := by decide
  have hanswer : (Turn.mk (run {} before) host
      (.vote alice .first .inFavor "" ⟨⟨2, by decide⟩⟩)).answer =
        .ok (.weight ⟨5, by decide⟩) := by
    decide +kernel
  have hknown : (run {} before).state.held.hasHistory alice = true := by decide +kernel
  obtain ⟨p, vote, found, -, -, hweight⟩ :=
    Chronological.weight_eq_power hchronological hanswer hknown
  have hsnapshot : s.proposals[ProposalId.first]?.map (·.snapshotTime) =
      some ⟨⟨2, by decide⟩⟩ := by
    decide +kernel
  rw [found, Option.map_some, Option.some.injEq] at hsnapshot
  refine ⟨p, found, ?_⟩
  rw [hweight (.inr ?_) host]
  rw [hsnapshot]
  decide

/-- **At the snapshot itself a weight is not final.** A balance recorded at the first instant of
the window, after a vote, changes the voting power at the snapshot and not the vote. -/
theorem weight_of_unfinished_instant :
    let alice : Account := ⟨"civ_alice", by decide⟩
    let foundation : Account := ⟨"civ_foundation", by decide⟩
    let host := Rehearsal.host { owner := foundation }
    let before : List (Host × Call) := [
      (host, .setUp foundation { votingDelay := ⟨1, by decide⟩ }),
      (host, .recordBalance alice ⟨5, by decide⟩ ⟨⟨1, by decide⟩⟩),
      (host, .create alice ⟨"raise", "", .external foundation, [1], .zero⟩ ⟨⟨1, by decide⟩⟩)]
    let calls := before ++ [
      (host, .vote alice .first .inFavor "" ⟨⟨2, by decide⟩⟩),
      (host, .recordBalance alice ⟨9, by decide⟩ ⟨⟨2, by decide⟩⟩)]
    let s := (run {} calls).state
    Chronological calls ∧ (run {} before).state.held.hasHistory alice = true ∧
      s.proposals[ProposalId.first]?.map (·.snapshotTime) = some ⟨⟨2, by decide⟩⟩ ∧
      (s.votes.vote? .first alice).map (·.weight.val) = some 5 ∧
      (s.votingPowerAt host alice ⟨⟨2, by decide⟩⟩).val = 9 := by
  intro alice foundation host before calls s
  exact ⟨by decide, by decide +kernel, by decide +kernel, by decide +kernel, by decide +kernel⟩

end Engine
end TokenGovernance
