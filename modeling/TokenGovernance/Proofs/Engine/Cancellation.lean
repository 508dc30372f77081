/-
# Canceled once, by those who may, and for good

A proposal is canceled by one answered call, and no other call touches the mark
(`Turn.cancels_or_keeps`). What such a call relied on is read off the phase in which it is
answered: pending or active, hence not yet executed (`Proposal.open_of_phase`), and inside the
window or before it (`Proposal.Wellformed.le_endTime`). A call can be told an instant that lies
before that of an earlier one, so the vote may have been won and the proposal armed by then.

What comes later does not depend on the instants either. A canceled proposal is in no phase in
which a call that names it is answered (`Engine.Answered.not_canceled`), so its record stays, its
votes stay, and nothing is carried out for it (`Engine.cancellation`).
-/

import TokenGovernance.Proofs.Engine.Execution
import TokenGovernance.Proofs.Engine.Integrity
import TokenGovernance.Proofs.Engine.Lifecycle

namespace TokenGovernance

/-- Whether the proposal with a number was canceled. -/
def State.hasCanceled (s : State) (id : ProposalId) : Bool := s.proposals[id]?.any (·.canceled)

/-- A proposal is pending or active at most to the end of its window. -/
theorem Proposal.Wellformed.le_endTime {p : Proposal} {now : Timestamp} {parameters : Parameters}
    (h : p.Wellformed)
    (undecided : p.phase now parameters = .pending ∨ p.phase now parameters = .active) :
    now ≤ p.endTime := by
  rcases undecided with hpending | hactive
  · have hbefore := (Proposal.phase_eq_pending_iff.1 hpending).2.2
    exact Nat.le_of_lt (Nat.lt_trans hbefore h.window)
  · exact (Proposal.phase_eq_active_iff.1 hactive).2.2.2

namespace Engine

variable {host : Host} {e e' : Engine} {c : Call} {answer : Answer} {id : ProposalId}
  {p : Proposal}

/-- **No call on a canceled proposal is answered.** -/
theorem Answered.not_canceled (h : Answered host e c answer e') (named : c.proposal? = some id)
    (found : e.state.proposals[id]? = some p) : p.canceled = false := by
  cases h with
  | cancel _ hfound _ undecided =>
    cases named
    cases found.symm.trans hfound
    exact (Proposal.open_of_phase undecided).1
  | vote _ hfound _ active =>
    cases named
    cases found.symm.trans hfound
    exact (Proposal.phase_eq_active_iff.1 active).1
  | wait _ hfound queued =>
    cases named
    cases found.symm.trans hfound
    exact (Proposal.phase_eq_queued_iff.1 queued).1.not_canceled
  | arm _ hfound succeeded =>
    cases named
    cases found.symm.trans hfound
    exact (Proposal.phase_eq_succeeded_iff.1 succeeded).1.not_canceled
  | invoke _ hfound due | amend _ hfound due =>
    cases named
    cases found.symm.trans hfound
    exact due.passed.not_canceled
  | _ => cases named

end Engine

namespace Turn

variable {t : Turn} {id : ProposalId} {p : Proposal}

/-- Whether a proposal is canceled in a turn: a call for it is answered. -/
def cancels (id : ProposalId) (t : Turn) : Bool :=
  match t.call with
  | .cancel _ i _ => i = id && t.answer.isOk
  | _ => false

/-- A proposal is canceled in a turn when a call to cancel it is answered. -/
theorem cancels_iff : t.cancels id = true ↔
    (∃ caller now, t.call = .cancel caller id now) ∧ ∃ answer, t.answer = .ok answer := by
  unfold cancels
  rcases t.call with _ | _ | _ | _ | _ | ⟨caller, i, now⟩ | _ | _ | _ <;>
    rcases t.answer with _ | _ <;> simp [Except.isOk, Except.toBool]

/-- **What canceling a proposal relied on and what it leaves.** -/
theorem of_cancels (h : t.cancels id = true) :
    ∃ caller now q, t.call = .cancel caller id now ∧ t.before.state.proposals[id]? = some q ∧
      (q.proposer = caller ∨ t.host.isOwner caller = true) ∧
      (q.phase now t.before.state.parameters = .pending ∨
        q.phase now t.before.state.parameters = .active) ∧
      t.after.state.proposals[id]? = some { q with canceled := true } := by
  obtain ⟨⟨caller, now, hcall⟩, answer, hanswer⟩ := cancels_iff.1 h
  rcases t.answered_or_refused with ⟨_, -, ha⟩ | ⟨f, hf, -⟩
  · generalize t.after = e' at *
    rw [hcall] at ha
    cases ha with
    | cancel _ found authority undecided =>
      refine ⟨caller, now, _, hcall, found, authority, undecided, ?_⟩
      rw [getElem?_insert_proposal, if_pos rfl]
  · rw [hf] at hanswer
    cases hanswer

/-- **Only canceling a proposal touches its mark.** -/
theorem hasCanceled_after (hr : t.before.state.Registered) (h : t.cancels id = false) :
    t.after.state.hasCanceled id = t.before.state.hasCanceled id := by
  rcases t.answered_or_refused with ⟨answer, hanswer, ha⟩ | ⟨f, -, hkept, -⟩
  · have hother : ∀ caller now, t.call ≠ .cancel caller id now := fun caller now hcall =>
      Bool.false_ne_true (h.symm.trans (cancels_iff.2 ⟨⟨caller, now, hcall⟩, answer, hanswer⟩))
    have hchanges := ha.changes hr id
    unfold State.hasCanceled
    generalize t.before.state.proposals[id]? = o at *
    generalize t.after.state.proposals[id]? = o' at *
    generalize t.call = c at *
    cases hchanges with
    | canceled => exact absurd rfl (hother _ _)
    | _ => rfl
  · rw [hkept]

/-- **A turn leaves the mark of a proposal alone or sets it**, and then it was not set. -/
theorem cancels_or_keeps (t : Turn) (hr : t.before.state.Registered) (id : ProposalId) :
    t.cancels id = false ∧ t.after.state.hasCanceled id = t.before.state.hasCanceled id ∨
      t.cancels id = true ∧ t.before.state.hasCanceled id = false ∧
        t.after.state.hasCanceled id = true := by
  cases h : t.cancels id with
  | false => exact .inl ⟨rfl, hasCanceled_after hr h⟩
  | true =>
    obtain ⟨caller, now, q, hcall, found, -, -, found'⟩ := of_cancels h
    obtain ⟨-, answer, hanswer⟩ := cancels_iff.1 h
    refine .inr ⟨rfl, ?_, by rw [State.hasCanceled, found', Option.any_some]⟩
    rcases t.answered_or_refused with ⟨_, -, ha⟩ | ⟨f, hf, -⟩
    · rw [State.hasCanceled, found, Option.any_some]
      exact ha.not_canceled (by rw [hcall]; rfl) found
    · rw [hf] at hanswer
      cases hanswer

/-- A call on a canceled proposal is refused. -/
theorem refused_of_canceled (found : t.before.state.proposals[id]? = some p)
    (canceled : p.canceled = true) (named : t.call.proposal? = some id) :
    ∃ f, t.answer = .error f ∧ t.after = t.before := by
  rcases t.answered_or_refused with ⟨answer, -, ha⟩ | ⟨f, hf, hkept, -⟩
  · exact absurd (canceled.symm.trans (ha.not_canceled named found)) nofun
  · exact ⟨f, hf, hkept⟩

/-- The votes on a canceled proposal stay. -/
theorem ballots_of_canceled (found : t.before.state.proposals[id]? = some p)
    (canceled : p.canceled = true) :
    t.after.state.votes.ballots id = t.before.state.votes.ballots id := by
  rcases t.answered_or_refused with ⟨answer, -, ha⟩ | ⟨f, -, hkept, -⟩
  · refine ha.ballots_eq fun named => ?_
    exact absurd (canceled.symm.trans (ha.not_canceled named found)) nofun
  · rw [hkept]

/-- Nothing is invoked for a canceled proposal. -/
theorem invokedFor_of_canceled (found : t.before.state.proposals[id]? = some p)
    (canceled : p.canceled = true) : t.invokedFor id = [] := by
  unfold invokedFor
  split
  · rename_i i now hcall
    split
    · rename_i hid
      obtain ⟨f, -, hkept⟩ := refused_of_canceled found canceled
        (by rw [hcall, ← hid]; rfl)
      rw [invoked, hkept, List.drop_length]
    · rfl
  · rfl

end Turn

namespace Engine

variable {id : ProposalId} {p : Proposal} {calls : List (Host × Call)}

/-- **Over a run, the mark tells how often a proposal was canceled.** -/
theorem cancels_run (calls : List (Host × Call)) (id : ProposalId) :
    ((trace {} calls).filter (Turn.cancels id)).length =
      if (run {} calls).state.hasCanceled id then 1 else 0 :=
  length_filter_trace (·.hasCanceled id) (by simp [State.hasCanceled])
    (fun t hr => t.cancels_or_keeps hr id) calls

/-- **Canceled once, by those who may, and for good.** In a run with calls at any times a proposal
is marked as canceled if and only if exactly one call that was answered canceled it. That call was
made by its proposer or by whom the gate took for the owner then, not after its window and before
it was executed, and the record that it left is the last one. In every later turn the record and
the votes stay, nothing is invoked for the proposal, and a call that names it fails and changes
nothing at all. -/
theorem cancellation (found : (run {} calls).state.proposals[id]? = some p) :
    (p.canceled = true ↔ ((trace {} calls).filter (Turn.cancels id)).length = 1) ∧
    ((trace {} calls).filter (Turn.cancels id)).length ≤ 1 ∧
    ∀ earlier t later, trace {} calls = earlier ++ t :: later → t.cancels id = true →
      (∃ caller now q, t.call = .cancel caller id now ∧
        t.before.state.proposals[id]? = some q ∧ p = { q with canceled := true } ∧
        (p.proposer = caller ∨ t.host.isOwner caller = true) ∧ now ≤ p.endTime ∧
        q.canceled = false ∧ q.executed = false) ∧
      ∀ u ∈ later,
        u.before.state.proposals[id]? = some p ∧ u.after.state.proposals[id]? = some p ∧
        u.after.state.votes.ballots id = u.before.state.votes.ballots id ∧
        u.invokedFor id = [] ∧
        (u.call.proposal? = some id → ∃ f, u.answer = .error f ∧ u.after = u.before) := by
  have hcount := cancels_run calls id
  rw [State.hasCanceled, found, Option.any_some] at hcount
  refine ⟨?_, ?_, fun earlier t later hcut hcancels => ?_⟩
  · rw [hcount]
    cases p.canceled <;> simp
  · rw [hcount]
    split <;> omega
  · obtain ⟨before, rest, rfl, hbefore, rfl⟩ := exists_append_of_trace_eq hcut
    have hr : t.before.Reachable := hbefore ▸ reachable_run before
    have hr' : t.after.Reachable := hr.run [(t.host, t.call)]
    obtain ⟨caller, now, q, hcall, hq, authority, undecided, hafter⟩ := Turn.of_cancels hcancels
    obtain ⟨hnot, hpending⟩ := Proposal.open_of_phase undecided
    have hopen := (hr.wellformed hq).le_endTime undecided
    have hstays (calls : List (Host × Call)) :
        (t.after.run calls).state.proposals[id]? = some { q with canceled := true } :=
      hr'.finished_run hafter (.inl rfl) calls
    have hp : p = { q with canceled := true } := by
      rw [run_append, run_cons, ← hbefore] at found
      exact Option.some.inj (found.symm.trans (hstays rest))
    subst hp
    refine ⟨⟨caller, now, q, hcall, hq, rfl, authority, hopen, hnot, hpending⟩, fun u hu => ?_⟩
    obtain ⟨calls, _, -, hu⟩ := exists_append_of_mem_trace hu
    have hfound : u.before.state.proposals[id]? = some { q with canceled := true } := by
      rw [hu]
      exact hstays calls
    have hfound' : u.after.state.proposals[id]? = some { q with canceled := true } := by
      have hur : u.before.Reachable := hu ▸ hr'.run calls
      exact hur.finished_run hfound (.inl rfl) [(u.host, u.call)]
    exact ⟨hfound, hfound', Turn.ballots_of_canceled hfound rfl,
      Turn.invokedFor_of_canceled hfound rfl, Turn.refused_of_canceled hfound rfl⟩

/-- The owner cancels a proposal that is armed, in a call told an instant inside its window, and
neither a vote at that instant nor a call for its execution is answered then. -/
theorem cancellation_of_armed :
    let alice : Account := ⟨"civ_alice", by decide⟩
    let bob : Account := ⟨"civ_bob", by decide⟩
    let foundation : Account := ⟨"civ_foundation", by decide⟩
    let host := Rehearsal.host { owner := foundation }
    let before : List (Host × Call) := [
      (host, .setUp foundation { votingDelay := .zero, executionDelay := ⟨10, by decide⟩ }),
      (host, .recordBalance alice ⟨5, by decide⟩ ⟨⟨1, by decide⟩⟩),
      (host, .recordBalance bob ⟨4, by decide⟩ ⟨⟨1, by decide⟩⟩),
      (host, .create alice ⟨"raise", "", .external foundation, [1], .zero⟩ ⟨⟨2, by decide⟩⟩),
      (host, .vote alice .first .inFavor "" ⟨⟨2, by decide⟩⟩),
      (host, .execute .first ⟨⟨604803, by decide⟩⟩)]
    let cancel : Turn := ⟨run {} before, host, .cancel foundation .first ⟨⟨3, by decide⟩⟩⟩
    let vote : Turn := ⟨cancel.after, host, .vote bob .first .against "" ⟨⟨3, by decide⟩⟩⟩
    let execute : Turn := ⟨vote.after, host, .execute .first ⟨⟨604814, by decide⟩⟩⟩
    let calls := before ++ [cancel, vote, execute].map fun t => (t.host, t.call)
    ∃ p, (run {} calls).state.proposals[ProposalId.first]? = some p ∧ p.canceled = true ∧
      p.armedAt.isSome = true ∧ p.proposer ≠ foundation ∧
      ((trace {} calls).filter (Turn.cancels .first)).length = 1 ∧
      cancel.cancels .first = true ∧ vote.after = vote.before ∧ execute.after = execute.before ∧
      execute.invokedFor .first = [] := by
  intro alice bob foundation host before cancel vote execute calls
  have hrecord : (run {} calls).state.proposals[ProposalId.first]?.map
      (fun p => (p.canceled, p.armedAt.isSome, p.proposer)) = some (true, true, alice) := by
    decide +kernel
  have hcancels : cancel.cancels .first = true := by decide +kernel
  obtain ⟨p, found, hp⟩ := Option.map_eq_some_iff.1 hrecord
  obtain ⟨hcanceled, harmed, hproposer⟩ := by simpa only [Prod.mk.injEq] using hp
  obtain ⟨hone, -, hcancellation⟩ := cancellation found
  obtain ⟨-, hlater⟩ := hcancellation (trace {} before) cancel [vote, execute] rfl hcancels
  obtain ⟨-, -, -, -, hvote⟩ := hlater vote (by simp)
  obtain ⟨-, -, -, hnothing, hexecute⟩ := hlater execute (by simp)
  obtain ⟨-, -, hvoteKept⟩ := hvote rfl
  obtain ⟨-, -, hexecuteKept⟩ := hexecute rfl
  exact ⟨p, found, hcanceled, harmed, by rw [hproposer]; decide, hone.1 hcanceled, hcancels,
    hvoteKept, hexecuteKept, hnothing⟩

end Engine
end TokenGovernance
