/-
# Proposals only move forward

What moves a proposal along is time and the calls, and neither moves it back
(`Engine.Reachable.lifecycle`). A call is made at the instant that it is told, and at that instant
it takes the proposal along the order of the phases or leaves it where it is
(`Engine.Changes.leads`); between two calls time does (`Proposal.phase_leads`). The parameters have
to stay for that, since the phase is read from those in force.

Some of it does not depend on the parameters. Nothing touches the tally and the votes once the
window has passed, and nothing touches the record at all once it is canceled or executed
(`Engine.Changes.eq_or_open`), so these two phases are for good.
-/

import TokenGovernance.Proofs.Engine.Amendments
import TokenGovernance.Proofs.Engine.Snapshot
import TokenGovernance.Proofs.Phase

namespace TokenGovernance

/-- Nothing that the outcome of a proposal is read from differs between two of its records. -/
structure Proposal.KeepsOutcome (p p' : Proposal) : Prop where
  startTime : p'.startTime = p.startTime
  endTime : p'.endTime = p.endTime
  tally : p'.tally = p.tally
  armed : ∀ eta, p.armedAt = some eta → p'.armedAt = some eta

namespace Proposal.KeepsOutcome

variable {p q r : Proposal}

/-- A record that stays as it is keeps its outcome. -/
theorem refl (p : Proposal) : p.KeepsOutcome p := ⟨rfl, rfl, rfl, fun _ h => h⟩

/-- An outcome that is kept is kept on. -/
theorem trans (h : p.KeepsOutcome q) (h' : q.KeepsOutcome r) : p.KeepsOutcome r where
  startTime := h'.startTime.trans h.startTime
  endTime := h'.endTime.trans h.endTime
  tally := h'.tally.trans h.tally
  armed eta ha := h'.armed eta (h.armed eta ha)

end Proposal.KeepsOutcome

namespace Engine

variable {host : Host} {e e' : Engine} {c : Call} {answer : Answer} {id : ProposalId}
  {p p' : Proposal} {now later told : Timestamp} {calls : List (Host × Call)}

/-! ### In one call -/

/-- **A call takes a proposal along the order of the phases**, at the instant that it is told. -/
theorem Changes.leads (h : Changes host e id c (some p) (some p'))
    (at_told : ∀ now ∈ c.time?, now = told) :
    (p.phase told e.state.parameters).Leads (p'.phase told e.state.parameters) := by
  cases h with
  | kept => exact .refl _
  | canceled _ undecided =>
    cases at_told _ rfl
    rw [(Proposal.phase_eq_canceled_iff (p := { p with canceled := true })).2 rfl]
    rcases undecided with hpending | hactive
    · rw [hpending]
      exact .of_pending _
    · rw [hactive]
      exact .of_active nofun
  | @voted _ _ _ _ _ tally active =>
    cases at_told _ rfl
    have hstill := Proposal.phase_eq_active_iff.1 active
    rw [active, (Proposal.phase_eq_active_iff (p := { p with tally })).2 hstill]
    exact .refl _
  | @armed _ eta _ succeeded _ later =>
    cases at_told _ rfl
    have hpassed := (Proposal.phase_eq_succeeded_iff.1 succeeded).1
    have hwaits : eta.hasExpired e.state.parameters.executionDelay told = false := by
      rw [Bool.eq_false_iff, ne_eq, Timestamp.hasExpired_iff]
      have hlast := eta.val_lt
      rw [Timestamp.lt_def] at later
      omega
    rw [succeeded, (Proposal.phase_eq_queued_iff (p := { p with armedAt := some eta })).2
      ⟨{ hpassed with }, eta, rfl, hwaits⟩]
    exact .of_mem_next (by decide)
  | @executed _ eta _ due =>
    cases at_told _ rfl
    rw [(Proposal.phase_eq_executed_iff
      (p := { p with armedAt := some eta, executed := true })).2 ⟨due.passed.not_canceled, rfl⟩]
    cases due with
    | armed queued =>
      rw [queued]
      exact .of_mem_next (by decide)
    | undelayed succeeded =>
      rw [succeeded]
      exact .of_mem_next (by decide)

/-- **What was canceled or executed is left alone**, and nothing becomes both at once. -/
theorem Changes.eq_or_open (h : Changes host e id c (some p) (some p')) :
    p' = p ∨ p.canceled = false ∧ p.executed = false ∧
      ¬(p'.canceled = true ∧ p'.executed = true) := by
  cases h with
  | kept => exact .inl rfl
  | canceled _ undecided =>
    obtain ⟨hc, he⟩ := Proposal.open_of_phase undecided
    exact .inr ⟨hc, he, fun hboth => Bool.false_ne_true (he.symm.trans hboth.2)⟩
  | voted active =>
    obtain ⟨hc, he, -⟩ := Proposal.phase_eq_active_iff.1 active
    exact .inr ⟨hc, he, fun hboth => Bool.false_ne_true (hc.symm.trans hboth.1)⟩
  | armed succeeded =>
    obtain ⟨hpassed, -⟩ := Proposal.phase_eq_succeeded_iff.1 succeeded
    exact .inr ⟨hpassed.not_canceled, hpassed.not_executed, fun hboth =>
      Bool.false_ne_true (hpassed.not_canceled.symm.trans hboth.1)⟩
  | executed due =>
    exact .inr ⟨due.passed.not_canceled, due.passed.not_executed, fun hboth =>
      Bool.false_ne_true (due.passed.not_canceled.symm.trans hboth.1)⟩

/-- After the window a call leaves the outcome alone. -/
theorem Changes.keepsOutcome (h : Changes host e id c (some p) (some p'))
    (closed : ∀ now ∈ c.time?, p.endTime < now) : p.KeepsOutcome p' := by
  cases h with
  | kept => exact .refl p
  | canceled => exact ⟨rfl, rfl, rfl, fun _ ha => ha⟩
  | voted active =>
    have hopen := (Proposal.phase_eq_active_iff.1 active).2.2.2
    exact absurd (closed _ rfl) (Timestamp.not_lt.2 hopen)
  | armed succeeded =>
    refine ⟨rfl, rfl, rfl, fun _ ha => ?_⟩
    rw [(Proposal.phase_eq_succeeded_iff.1 succeeded).2] at ha
    cases ha
  | executed due =>
    refine ⟨rfl, rfl, rfl, fun _ ha => ?_⟩
    cases due with
    | armed _ armed => exact armed.symm.trans ha
    | undelayed succeeded =>
      rw [(Proposal.phase_eq_succeeded_iff.1 succeeded).2] at ha
      cases ha

/-- After the window a call leaves the votes alone. -/
theorem Answered.votesOn_eq (h : Answered host e c answer e')
    (found : e.state.proposals[id]? = some p) (closed : ∀ now ∈ c.time?, p.endTime < now) :
    e'.state.votes.votesOn id = e.state.votes.votesOn id := by
  induction h with
  | undelegate _ ih => exact ih closed
  | @vote voter i support reason now q tally _ hq _ active =>
    refine VoteBook.votesOn_put_of_ne (fun hi => ?_) _ _ _
    rw [← hi, found] at hq
    cases hq
    have hopen := (Proposal.phase_eq_active_iff.1 active).2.2.2
    exact absurd (closed _ rfl) (Timestamp.not_lt.2 hopen)
  | _ => rfl

/-! ### Over a run -/

/-- **Under the same parameters a run takes a proposal along the order of the phases.** Each call is
told an instant between the two, or none, and then it is as good as told the first. -/
theorem Reachable.leads_run (h : e.Reachable) (found : e.state.proposals[id]? = some p)
    (found' : (e.run calls).state.proposals[id]? = some p')
    (order : (now :: (times calls ++ [later])).Pairwise (· ≤ ·))
    (same : (e.run calls).state.parameters = e.state.parameters) :
    (p.phase now e.state.parameters).Leads (p'.phase later e.state.parameters) := by
  induction calls generalizing e p now with
  | nil =>
    cases found.symm.trans found'
    exact p'.phase_leads _ ((List.pairwise_cons.1 order).1 later (by simp))
  | cons turn calls ih =>
    obtain ⟨host, c⟩ := turn
    obtain ⟨q, hq, hchanges⟩ := h.changes_of_found found host c
    have hsame : (e.run [(host, c)]).state.parameters = e.state.parameters :=
      h.parameters_after_eq (h.registered.initialized found) same
    obtain ⟨told, htold, hle, horder⟩ : ∃ told, (∀ u ∈ c.time?, u = told) ∧ now ≤ told ∧
        (told :: (times calls ++ [later])).Pairwise (· ≤ ·) := by
      rcases htime : c.time? with _ | told
      · have hskip : times ((host, c) :: calls) = times calls := List.filterMap_cons_none htime
        exact ⟨now, nofun, Nat.le_refl _, hskip ▸ order⟩
      · have hnext : times ((host, c) :: calls) = told :: times calls :=
          List.filterMap_cons_some htime
        rw [hnext] at order
        obtain ⟨hfirst, hrest⟩ := List.pairwise_cons.1 order
        exact ⟨told, fun u hu => (Option.some.inj hu).symm, hfirst told (by simp), hrest⟩
    have htail := ih (h.run [(host, c)]) hq found' horder (same.trans hsame.symm)
    rw [hsame] at htail
    exact (p.phase_leads _ hle).trans ((hchanges.leads htold).trans htail)

/-- **After the window the outcome and the votes stay.** -/
theorem Reachable.closed_run (h : e.Reachable) (found : e.state.proposals[id]? = some p)
    (calls : List (Host × Call)) (closed : ∀ told ∈ times calls, p.endTime < told) :
    ∃ p', (e.run calls).state.proposals[id]? = some p' ∧ p.KeepsOutcome p' ∧
      (e.run calls).state.votes.votesOn id = e.state.votes.votesOn id := by
  induction calls generalizing e p with
  | nil => exact ⟨p, found, .refl p, rfl⟩
  | cons turn calls ih =>
    obtain ⟨host, c⟩ := turn
    obtain ⟨q, hq, hchanges⟩ := h.changes_of_found found host c
    have hclosed : ∀ now ∈ c.time?, p.endTime < now := fun now hnow =>
      closed now (mem_times.2 ⟨(host, c), List.mem_cons_self, hnow⟩)
    have hkeeps := hchanges.keepsOutcome hclosed
    have hvotes : (Turn.mk e host c).after.state.votes.votesOn id = e.state.votes.votesOn id := by
      rcases (Turn.mk e host c).answered_or_refused with ⟨answer, -, ha⟩ | ⟨f, -, hkept, -⟩
      · exact ha.votesOn_eq found hclosed
      · rw [hkept]
    obtain ⟨p', hp', hrest, hvotes'⟩ := ih (h.run [(host, c)]) hq fun told htold => by
      obtain ⟨turn, hmem, hturn⟩ := mem_times.1 htold
      rw [hkeeps.endTime]
      exact closed told (mem_times.2 ⟨turn, List.mem_cons_of_mem _ hmem, hturn⟩)
    exact ⟨p', hp', hkeeps.trans hrest, hvotes'.trans hvotes⟩

/-- Nothing is both canceled and executed. -/
theorem Reachable.not_canceled_and_executed (h : e.Reachable)
    (found : e.state.proposals[id]? = some p) : ¬(p.canceled = true ∧ p.executed = true) := by
  refine h.proposal_invariant (P := fun p => ¬(p.canceled = true ∧ p.executed = true))
    (fun _ _ _ _ _ _ hboth => Bool.false_ne_true hboth.1) ?_ found
  intro host e id c p p' hchanges hone
  rcases hchanges.eq_or_open with rfl | ⟨-, -, hnot⟩
  · exact hone
  · exact hnot

/-- **The record of a proposal that is canceled or executed stays.** -/
theorem Reachable.finished_run (h : e.Reachable) (found : e.state.proposals[id]? = some p)
    (finished : p.canceled = true ∨ p.executed = true) (calls : List (Host × Call)) :
    (e.run calls).state.proposals[id]? = some p := by
  obtain ⟨q, hq, rfl⟩ := h.record_run (P := (· = p)) found rfl calls
    fun t _ q q' hchanges hqp => by
      subst hqp
      refine hchanges.eq_or_open.resolve_right fun ⟨hc, he, _⟩ => ?_
      rcases finished with hcanceled | hexecuted
      · exact Bool.false_ne_true (hc.symm.trans hcanceled)
      · exact Bool.false_ne_true (he.symm.trans hexecuted)
  exact hq

/-- **Proposals only move forward.** Take a proposal at some point of a run and at a later one.
Between two instants that no call of the meantime is out of order with, and under parameters that
were not amended in the meantime, its phase follows the order of the phases. Its tally and its
votes stay if its window has passed for all these calls. And if it is canceled or executed, which it
never is both, its record stays and so does its phase, whatever the instants and the parameters. -/
theorem Reachable.lifecycle (h : e.Reachable) (found : e.state.proposals[id]? = some p)
    (calls : List (Host × Call)) :
    ∃ p', (e.run calls).state.proposals[id]? = some p' ∧
      (∀ now later, (now :: (times calls ++ [later])).Pairwise (· ≤ ·) →
        (e.run calls).state.parameters = e.state.parameters →
        (p.phase now e.state.parameters).Leads
          (p'.phase later (e.run calls).state.parameters)) ∧
      ((∀ told ∈ times calls, p.endTime < told) →
        p'.tally = p.tally ∧ (e.run calls).state.votes.votesOn id = e.state.votes.votesOn id) ∧
      (∀ final now parameters, final = .canceled ∨ final = .executed →
        p.phase now parameters = final →
        p' = p ∧ ∀ now' parameters', p'.phase now' parameters' = final) ∧
      ¬(p.canceled = true ∧ p.executed = true) := by
  obtain ⟨p', found', -⟩ := window_run h found calls
  refine ⟨p', found', fun now later order same => ?_, fun closed => ?_,
    fun final now parameters hfinal hphase => ?_, h.not_canceled_and_executed found⟩
  · rw [same]
    exact h.leads_run found found' order same
  · obtain ⟨q, hq, hkeeps, hvotes⟩ := h.closed_run found calls closed
    cases hq.symm.trans found'
    exact ⟨hkeeps.tally, hvotes⟩
  · have hfinished : p.canceled = true ∨ p.executed = true := by
      rcases hfinal with rfl | rfl
      · exact .inl (Proposal.phase_eq_canceled_iff.1 hphase)
      · exact .inr (Proposal.phase_eq_executed_iff.1 hphase).2
    have hsame : p' = p :=
      Option.some.inj (found'.symm.trans (h.finished_run found hfinished calls))
    refine ⟨hsame, fun now' parameters' => ?_⟩
    rw [hsame]
    rcases hfinal with rfl | rfl
    · exact Proposal.phase_eq_canceled_iff.2 (Proposal.phase_eq_canceled_iff.1 hphase)
    · exact Proposal.phase_eq_executed_iff.2 (Proposal.phase_eq_executed_iff.1 hphase)

/-- A proposal that has succeeded is armed, waits and is executed, and stays so whatever is called
then, at whatever time. -/
theorem lifecycle_of_execution :
    let alice : Account := ⟨"civ_alice", by decide⟩
    let foundation : Account := ⟨"civ_foundation", by decide⟩
    let host := Rehearsal.host { owner := foundation }
    let e := run {} [
      (host, .setUp foundation { votingDelay := .zero, executionDelay := ⟨10, by decide⟩ }),
      (host, .recordBalance alice ⟨5, by decide⟩ ⟨⟨1, by decide⟩⟩),
      (host, .create alice ⟨"raise", "", .external foundation, [1], .zero⟩ ⟨⟨2, by decide⟩⟩),
      (host, .vote alice .first .inFavor "" ⟨⟨2, by decide⟩⟩)]
    let calls : List (Host × Call) := [
      (host, .execute .first ⟨⟨604804, by decide⟩⟩),
      (host, .execute .first ⟨⟨604810, by decide⟩⟩),
      (host, .execute .first ⟨⟨604814, by decide⟩⟩)]
    let again : List (Host × Call) := [(host, .cancel alice .first ⟨⟨2, by decide⟩⟩)]
    Phase.Leads .succeeded .executed ∧
      ∃ p, ((e.run calls).run again).state.proposals[ProposalId.first]? = some p ∧
        p.tally.inFavor.val = 5 ∧ ∀ now parameters, p.phase now parameters = .executed := by
  intro alice foundation host e calls again
  let start : Timestamp := ⟨⟨604803, by decide⟩⟩
  let stop : Timestamp := ⟨⟨604815, by decide⟩⟩
  have hreachable : e.Reachable := reachable_run _
  have hbefore : e.state.proposals[ProposalId.first]?.map (fun p =>
      (p.phase start e.state.parameters, p.tally.inFavor.val, p.endTime.val)) =
        some (.succeeded, 5, 604802) := by
    decide +kernel
  have hafter : (e.run calls).state.proposals[ProposalId.first]?.map
      (·.phase stop (e.run calls).state.parameters) = some .executed := by
    decide +kernel
  have hsame : (e.run calls).state.parameters = e.state.parameters := by decide +kernel
  obtain ⟨p, found, hp⟩ := Option.map_eq_some_iff.1 hbefore
  obtain ⟨hphase, hfive, hend⟩ := by simpa only [Prod.mk.injEq] using hp
  obtain ⟨p', found', hleads, hkept, -, -⟩ := hreachable.lifecycle found calls
  rw [found', Option.map_some, Option.some.injEq] at hafter
  have hforward := hleads start stop (by decide) hsame
  rw [hphase, hafter] at hforward
  have hlate : ∀ told ∈ times calls, 604802 < told.val := by decide
  have htally := (hkept fun told htold => Nat.lt_of_le_of_lt (Nat.le_of_eq hend)
    (hlate told htold)).1
  obtain ⟨q, hq, -, -, hfinal, -⟩ := (hreachable.run calls).lifecycle found' again
  obtain ⟨hqp, hstays⟩ := hfinal _ stop _ (.inr rfl) hafter
  exact ⟨hforward, q, hq, by rw [hqp, htally, hfive], hstays⟩

end Engine
end TokenGovernance
