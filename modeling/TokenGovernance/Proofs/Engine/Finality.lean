/-
# Lost proposals

Under the parameters of the moment a proposal that is defeated or expired is lost: no phase follows
these two. But the parameters can be amended, and the phase is read from those in force. What an
amendment can undo is one of two things (`Engine.Reachable.lost_until_amended`):

| lost because | undone by |
| --- | --- |
| the participation is short of the quorum | a lower quorum |
| there is no majority | nothing |
| it was left armed for a whole delay | a longer delay |

Once the window has passed nothing else touches the proposal: its votes are counted, nobody can
withdraw it, and only a call for its execution that is answered changes its record
(`Turn.unchanged_of_not_furthers`).
-/

import TokenGovernance.Proofs.Engine.Execution
import TokenGovernance.Proofs.Engine.Lifecycle

namespace TokenGovernance
namespace Proposal

variable {p q : Proposal} {now told : Timestamp} {parameters amended : Parameters}

/-- A vote that was lost under some parameters and is won under others was short of the quorum. -/
theorem KeepsOutcome.of_defeated (h : p.KeepsOutcome q)
    (lost : p.phase now parameters = .defeated) (won : q.Passed told amended) :
    p.tally.against < p.tally.inFavor ∧ amended.quorumThreshold ≤ p.tally.total ∧
      amended.quorumThreshold < parameters.quorumThreshold := by
  have hquorum := won.quorum
  have hmajority := won.majority
  rw [h.tally] at hquorum hmajority
  obtain ⟨-, -, -, -, hshort | hminority⟩ := phase_eq_defeated_iff.1 lost
  · exact ⟨hmajority, hquorum, Nat.lt_of_le_of_lt hquorum hshort⟩
  · exact absurd hminority (Quantity.not_le.2 hmajority)

/-- A proposal that expired under some parameters, and later can be executed under others, is given
a longer delay by them. -/
theorem KeepsOutcome.of_expired (h : p.KeepsOutcome q) (hle : now ≤ told)
    (lost : p.phase now parameters = .expired)
    (ready : q.phase told amended = .succeeded ∨ q.phase told amended = .queued) :
    parameters.executionDelay < amended.executionDelay := by
  obtain ⟨-, eta, harmed, hexpired⟩ := phase_eq_expired_iff.1 lost
  have harmed' := h.armed eta harmed
  rcases ready with hsucceeded | hqueued
  · rw [(phase_eq_succeeded_iff.1 hsucceeded).2] at harmed'
    cases harmed'
  · obtain ⟨-, eta', harmed'', hwaits⟩ := phase_eq_queued_iff.1 hqueued
    cases harmed'.symm.trans harmed''
    have hlater := Timestamp.hasExpired_of_le hle hexpired
    rw [Timestamp.hasExpired_iff] at hlater
    rw [Bool.eq_false_iff, ne_eq, Timestamp.hasExpired_iff] at hwaits
    rw [Quantity.lt_def]
    omega

/-- The window of a lost proposal has passed. -/
theorem window_of_lost
    (lost : p.phase now parameters = .defeated ∨ p.phase now parameters = .expired) :
    p.startTime ≤ now ∧ p.endTime < now := by
  rcases lost with hdefeated | hexpired
  · obtain ⟨-, -, hstarted, hclosed, -⟩ := phase_eq_defeated_iff.1 hdefeated
    exact ⟨hstarted, hclosed⟩
  · obtain ⟨hpassed, -⟩ := phase_eq_expired_iff.1 hexpired
    exact ⟨hpassed.started, hpassed.closed⟩

end Proposal

namespace Turn

variable {t : Turn} {id : ProposalId} {p : Proposal}

/-- A turn furthers a proposal: it is a call for its execution, and it is answered. -/
def Furthers (t : Turn) (id : ProposalId) : Prop :=
  ∃ now answer, t.call = .execute id now ∧ t.answer = .ok answer

/-- A proposal is furthered when it has succeeded or is queued. -/
theorem Furthers.phase (h : t.Furthers id) :
    ∃ p now, t.call = .execute id now ∧ t.before.state.proposals[id]? = some p ∧
      (p.phase now t.before.state.parameters = .succeeded ∨
        p.phase now t.before.state.parameters = .queued) := by
  obtain ⟨now, answer, hcall, hanswer⟩ := h
  rcases t.answered_or_refused with ⟨_, -, ha⟩ | ⟨f, hf, -⟩
  · rw [hcall] at ha
    generalize t.after = e' at ha
    have hdue {p : Proposal} {eta : Timestamp} (due : p.Due now t.before.state.parameters eta) :
        p.phase now t.before.state.parameters = .succeeded ∨
          p.phase now t.before.state.parameters = .queued := by
      cases due with
      | armed queued => exact .inr queued
      | undelayed succeeded => exact .inl succeeded
    cases ha with
    | wait _ found queued => exact ⟨_, now, hcall, found, .inr queued⟩
    | arm _ found succeeded => exact ⟨_, now, hcall, found, .inl succeeded⟩
    | invoke _ found due => exact ⟨_, now, hcall, found, hdue due⟩
    | amend _ found due => exact ⟨_, now, hcall, found, hdue due⟩
  · rw [hf] at hanswer
    cases hanswer

/-- **After the window a proposal is changed only by a turn that furthers it.** -/
theorem unchanged_of_not_furthers (hr : t.before.state.Registered)
    (found : t.before.state.proposals[id]? = some p)
    (closed : ∀ now ∈ t.call.time?, p.startTime ≤ now ∧ p.endTime < now)
    (other : ¬t.Furthers id) :
    t.after.state.proposals[id]? = t.before.state.proposals[id]? ∧ t.invokedFor id = [] := by
  rcases t.answered_or_refused with ⟨answer, hanswer, ha⟩ | ⟨f, -, hkept, -⟩
  · have hexecute {now : Timestamp} (hcall : t.call = .execute id now) : False :=
      other ⟨now, answer, hcall, hanswer⟩
    constructor
    · have hchanges := ha.changes hr id
      generalize hcall : t.call = c at hchanges closed
      rw [found] at hchanges ⊢
      generalize t.after.state.proposals[id]? = o at hchanges ⊢
      cases hchanges with
      | kept => rfl
      | canceled _ undecided =>
        obtain ⟨hstarted, hclosed⟩ := closed _ rfl
        rcases undecided with hpending | hactive
        · have hbefore := (Proposal.phase_eq_pending_iff.1 hpending).2.2
          exact absurd hbefore (Timestamp.not_lt.2 hstarted)
        · have hopen := (Proposal.phase_eq_active_iff.1 hactive).2.2.2
          exact absurd hopen (Timestamp.not_le.2 hclosed)
      | voted active =>
        have hopen := (Proposal.phase_eq_active_iff.1 active).2.2.2
        exact absurd hopen (Timestamp.not_le.2 (closed _ rfl).2)
      | armed => exact (hexecute hcall).elim
      | executed => exact (hexecute hcall).elim
    · unfold invokedFor
      split
      · rename_i i now hcall
        exact if_neg fun hi => hexecute (hi ▸ hcall)
      · rfl
  · rw [hkept]
    refine ⟨rfl, invokedFor_of_quiet ?_ id⟩
    rw [hkept]
    exact ⟨rfl, fun _ => rfl, fun _ => rfl⟩

end Turn

namespace Engine

variable {e : Engine} {t : Turn} {id : ProposalId} {p : Proposal}
  {now told : Timestamp} {calls : List (Host × Call)}

/-- The time that a turn of a run tells is one of the times of its calls. -/
theorem mem_times_of_mem_trace (ht : t ∈ e.trace calls) (htold : t.call.time? = some told) :
    told ∈ times calls := by
  obtain ⟨before, later, rfl, -⟩ := exists_append_of_mem_trace ht
  exact mem_times.2 ⟨_, List.mem_append_right _ List.mem_cons_self, htold⟩

/-- A turn after the window starts from a record with the same outcome. -/
theorem Reachable.record_before (h : e.Reachable) (found : e.state.proposals[id]? = some p)
    (closed : ∀ told ∈ times calls, p.endTime < told) (ht : t ∈ e.trace calls) :
    ∃ q, t.before.state.proposals[id]? = some q ∧ p.KeepsOutcome q := by
  obtain ⟨before, later, rfl, hbefore⟩ := exists_append_of_mem_trace ht
  obtain ⟨q, hq, hkeeps, -⟩ := h.closed_run found before fun told htold => by
    rw [times, List.filterMap_append] at closed
    exact closed told (List.mem_append_left _ htold)
  exact ⟨q, hbefore ▸ hq, hkeeps⟩

/-- **A lost proposal stays lost until an amendment undoes what it was lost for.** Take a proposal
that is defeated or expired at an instant, and any calls at that instant or later. If it was
defeated, its execution is advanced only after an amendment has lowered the quorum that it was short
of to its participation, and never if it had no majority. If it expired, its execution is advanced
only after an amendment has lengthened the delay. Every other call leaves its record as it is and
invokes nothing for it. -/
theorem Reachable.lost_until_amended (h : e.Reachable) (found : e.state.proposals[id]? = some p)
    (late : ∀ told ∈ times calls, now ≤ told) :
    (p.phase now e.state.parameters = .defeated → ∀ t ∈ e.trace calls, t.Furthers id →
      p.tally.against < p.tally.inFavor ∧
        t.before.state.parameters.quorumThreshold ≤ p.tally.total ∧
        t.before.state.parameters.quorumThreshold < e.state.parameters.quorumThreshold) ∧
    (p.phase now e.state.parameters = .expired → ∀ t ∈ e.trace calls, t.Furthers id →
      e.state.parameters.executionDelay < t.before.state.parameters.executionDelay) ∧
    (p.phase now e.state.parameters = .defeated ∨ p.phase now e.state.parameters = .expired →
      ∀ t ∈ e.trace calls, ¬t.Furthers id →
        t.after.state.proposals[id]? = t.before.state.proposals[id]? ∧ t.invokedFor id = []) := by
  have hbefore (lost : p.phase now e.state.parameters = .defeated ∨
      p.phase now e.state.parameters = .expired) {t : Turn} (ht : t ∈ e.trace calls) :
      ∃ q, t.before.state.proposals[id]? = some q ∧ p.KeepsOutcome q :=
    h.record_before found (fun told htold =>
      Nat.lt_of_lt_of_le (Proposal.window_of_lost lost).2 (late told htold)) ht
  refine ⟨fun lost t ht hfurthers => ?_, fun lost t ht hfurthers => ?_, fun lost t ht hother => ?_⟩
  · obtain ⟨q, hq, hkeeps⟩ := hbefore (.inl lost) ht
    obtain ⟨q', told, -, hq', hready⟩ := hfurthers.phase
    cases hq.symm.trans hq'
    exact hkeeps.of_defeated lost (Proposal.passed_of_phase (hready.imp_right .inl))
  · obtain ⟨q, hq, hkeeps⟩ := hbefore (.inr lost) ht
    obtain ⟨q', told, hcall, hq', hready⟩ := hfurthers.phase
    cases hq.symm.trans hq'
    have htold : told ∈ times calls := mem_times_of_mem_trace ht (by rw [hcall]; rfl)
    exact hkeeps.of_expired (late told htold) lost hready
  · obtain ⟨q, hq, hkeeps⟩ := hbefore lost ht
    obtain ⟨hstarted, hclosed⟩ := Proposal.window_of_lost lost
    refine Turn.unchanged_of_not_furthers (reachable_of_mem_trace h ht).registered hq ?_ hother
    intro told htold
    have hle := late told (mem_times_of_mem_trace ht htold)
    rw [hkeeps.startTime, hkeeps.endTime]
    exact ⟨Nat.le_trans hstarted hle, Nat.lt_of_lt_of_le hclosed hle⟩

/-- A proposal without a majority is lost for good, though the quorum is lowered in between. -/
theorem lost_until_amended_of_minority :
    let alice : Account := ⟨"civ_alice", by decide⟩
    let foundation : Account := ⟨"civ_foundation", by decide⟩
    let host := Rehearsal.host { owner := foundation }
    let payload := Binary.Codec.amendment.write (.set .quorumThreshold .zero)
    let second : ProposalId := ⟨⟨2, by decide⟩⟩
    let e := run {} [
      (host, .setUp foundation
        { votingDelay := .zero, votingPeriod := ⟨10, by decide⟩,
          quorumThreshold := ⟨5, by decide⟩, executionDelay := .zero }),
      (host, .recordBalance alice ⟨5, by decide⟩ ⟨⟨1, by decide⟩⟩),
      (host, .create alice ⟨"raise", "", .external foundation, [1], .zero⟩ ⟨⟨1, by decide⟩⟩),
      (host, .create alice ⟨"amend", "", .parameterStore, payload, .zero⟩ ⟨⟨1, by decide⟩⟩),
      (host, .vote alice .first .against "" ⟨⟨1, by decide⟩⟩),
      (host, .vote alice second .inFavor "" ⟨⟨1, by decide⟩⟩)]
    let calls : List (Host × Call) := [
      (host, .execute second ⟨⟨12, by decide⟩⟩),
      (host, .execute .first ⟨⟨12, by decide⟩⟩),
      (host, .cancel foundation .first ⟨⟨13, by decide⟩⟩)]
    (e.run calls).state.parameters.quorumThreshold < e.state.parameters.quorumThreshold ∧
      ∀ t ∈ e.trace calls, ¬t.Furthers .first ∧ t.invokedFor .first = [] := by
  intro alice foundation host payload second e calls
  let now : Timestamp := ⟨⟨12, by decide⟩⟩
  have hreachable : e.Reachable := reachable_run _
  have hlost : e.state.proposals[ProposalId.first]?.map (fun p =>
      (p.phase now e.state.parameters, p.tally.inFavor.val, p.tally.against.val)) =
        some (.defeated, 0, 5) := by
    decide +kernel
  have hlate : ∀ told ∈ times calls, now ≤ told := by decide
  obtain ⟨p, found, hp⟩ := Option.map_eq_some_iff.1 hlost
  obtain ⟨hphase, hfavor, hagainst⟩ := by simpa only [Prod.mk.injEq] using hp
  obtain ⟨hdefeated, -, hother⟩ := hreachable.lost_until_amended found hlate
  refine ⟨by decide +kernel, fun t ht => ?_⟩
  have hnever : ¬t.Furthers .first := fun hfurthers => by
    have hmajority := (hdefeated hphase t ht hfurthers).1
    rw [Quantity.lt_def, hfavor, hagainst] at hmajority
    exact absurd hmajority (by decide)
  exact ⟨hnever, (hother (.inl hphase) t ht hnever).2⟩

/-- **An amendment revives lost proposals.** One is defeated for want of a quorum and one has
expired, and both are refused. Then a third lowers the quorum and lengthens the delay, and from
there the first is armed and the action of the second is carried out. -/
theorem lost_proposals_revived :
    let alice : Account := ⟨"civ_alice", by decide⟩
    let bob : Account := ⟨"civ_bob", by decide⟩
    let foundation : Account := ⟨"civ_foundation", by decide⟩
    let host := Rehearsal.host { owner := foundation }
    let parameters : Parameters :=
      { votingDelay := .zero, votingPeriod := ⟨10, by decide⟩,
        quorumThreshold := ⟨10, by decide⟩, executionDelay := ⟨5, by decide⟩ }
    let payload := Binary.Codec.amendment.write
      (.replace { parameters with quorumThreshold := .zero, executionDelay := ⟨100, by decide⟩ })
    let second : ProposalId := ⟨⟨2, by decide⟩⟩
    let third : ProposalId := ⟨⟨3, by decide⟩⟩
    let calls : List (Host × Call) := [
      (host, .setUp foundation parameters),
      (host, .recordBalance alice ⟨5, by decide⟩ ⟨⟨1, by decide⟩⟩),
      (host, .recordBalance bob ⟨20, by decide⟩ ⟨⟨1, by decide⟩⟩),
      (host, .create alice ⟨"raise", "", .external foundation, [1], .zero⟩ ⟨⟨1, by decide⟩⟩),
      (host, .create bob ⟨"lower", "", .external foundation, [2], .zero⟩ ⟨⟨1, by decide⟩⟩),
      (host, .create bob ⟨"amend", "", .parameterStore, payload, .zero⟩ ⟨⟨1, by decide⟩⟩),
      (host, .vote alice .first .inFavor "" ⟨⟨1, by decide⟩⟩),
      (host, .vote bob second .inFavor "" ⟨⟨1, by decide⟩⟩),
      (host, .vote bob third .inFavor "" ⟨⟨1, by decide⟩⟩),
      (host, .execute second ⟨⟨12, by decide⟩⟩),
      (host, .execute third ⟨⟨20, by decide⟩⟩)]
    let later : List (Host × Call) := [
      (host, .execute .first ⟨⟨24, by decide⟩⟩),
      (host, .execute second ⟨⟨24, by decide⟩⟩),
      (host, .execute third ⟨⟨25, by decide⟩⟩),
      (host, .execute .first ⟨⟨25, by decide⟩⟩),
      (host, .execute second ⟨⟨25, by decide⟩⟩)]
    let e := run {} calls
    Chronological (calls ++ later) ∧
      e.state.proposals[ProposalId.first]?.map (·.phase ⟨⟨24, by decide⟩⟩ e.state.parameters) =
        some .defeated ∧
      e.state.proposals[second]?.map (·.phase ⟨⟨24, by decide⟩⟩ e.state.parameters) =
        some .expired ∧
      (e.trace later).map Turn.answer = [
        .error (.invalidPhase .first .defeated .execute),
        .error (.invalidPhase second .expired .execute),
        .ok (.outcome (.executed [])),
        .ok (.outcome (.queued ⟨⟨125, by decide⟩⟩)),
        .ok (.outcome (.executed [2]))] ∧
      ∃ t ∈ e.trace later, t.invokedFor second = [⟨foundation, [2], .zero⟩] := by
  intro alice bob foundation host parameters payload second third calls later e
  exact ⟨by decide, by decide +kernel, by decide +kernel, by decide +kernel,
    _, List.mem_of_getLast? rfl, by decide +kernel⟩

end Engine
end TokenGovernance
