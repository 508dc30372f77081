/-
# The window of execution

A proposal whose vote is won is armed for some instant after its window and can be executed from
then on, until it expires. The instant is kept from when it was armed, while the delay after which
it expires is the one in force (`Engine.Reachable.nextStep_of_armed`):

| delay in force | can be executed |
| --- | --- |
| some | at the instant that it was armed for, and until the delay has passed again |
| none | never |

So no amendment of the delay closes the window but one that takes the delay away while the proposal
is queued (`Engine.Reachable.window_opens`). A proposal that is armed under such parameters is
executed at once instead, and never queued.
-/

import TokenGovernance.Host.Rehearsal
import TokenGovernance.Proofs.Engine.Registry

namespace TokenGovernance
namespace Engine

variable {e : Engine} {id : ProposalId} {p : Proposal} {now eta : Timestamp}

/-- What a proposal was armed for lies after its voting window. -/
theorem Reachable.window_before_eta (h : e.Reachable) (found : e.state.proposals[id]? = some p)
    (armed : p.armedAt = some eta) : p.startTime ≤ eta ∧ p.endTime < eta := by
  refine h.proposal_invariant (P := fun p => ∀ eta, p.armedAt = some eta →
    p.startTime ≤ eta ∧ p.endTime < eta) (fun _ _ _ _ _ _ _ => nofun) ?_ found eta armed
  intro host e id c p p' hchanges hbefore
  cases hchanges with
  | kept | canceled | voted => exact hbefore
  | armed succeeded _ later =>
    rintro _ ⟨⟩
    obtain ⟨hpassed, -⟩ := Proposal.phase_eq_succeeded_iff.1 succeeded
    exact ⟨Nat.le_trans hpassed.started (Nat.le_of_lt later), Nat.lt_trans hpassed.closed later⟩
  | executed due =>
    rintro _ ⟨⟩
    cases due with
    | armed _ armed => exact hbefore _ armed
    | undelayed succeeded =>
      obtain ⟨hpassed, -⟩ := Proposal.phase_eq_succeeded_iff.1 succeeded
      exact ⟨hpassed.started, hpassed.closed⟩

/-- **When an armed proposal can be executed.** Once its time has come, the next step of a proposal
whose vote is won is to run its action, for as long as the delay in force has not passed again. -/
theorem Reachable.nextStep_of_armed (h : e.Reachable) (found : e.state.proposals[id]? = some p)
    (armed : p.armedAt = some eta) (not_canceled : p.canceled = false)
    (not_executed : p.executed = false)
    (quorum : e.state.parameters.quorumThreshold ≤ p.tally.total)
    (majority : p.tally.against < p.tally.inFavor) (reached : eta ≤ now) :
    Timelock.nextStep p now e.state.parameters =
      if now.val < min (eta.val + e.state.parameters.executionDelay.val) (1 <<< 64 - 1) then
        .ok (.run eta)
      else .error (.invalidPhase id .expired .execute) := by
  obtain ⟨hstarted, hclosed⟩ := h.window_before_eta found armed
  have hpassed : p.Passed now e.state.parameters :=
    ⟨not_canceled, not_executed, Nat.le_trans hstarted reached,
      Nat.lt_of_lt_of_le hclosed reached, quorum, majority⟩
  have hexpired := @Timestamp.hasExpired_iff eta now e.state.parameters.executionDelay
  split
  · rename_i hopen
    have hqueued : p.phase now e.state.parameters = .queued :=
      Proposal.phase_eq_queued_iff.2 ⟨hpassed, eta, armed,
        Bool.eq_false_iff.2 fun hx => Nat.not_le.2 hopen (hexpired.1 hx)⟩
    rw [Timelock.nextStep_of_queued hqueued armed, if_pos reached]
  · rename_i hover
    have hphase : p.phase now e.state.parameters = .expired :=
      Proposal.phase_eq_expired_iff.2 ⟨hpassed, eta, armed, hexpired.2 (Nat.not_lt.1 hover)⟩
    rw [Timelock.nextStep_of_ne (by rw [hphase]; nofun) (by rw [hphase]; nofun), hphase,
      h.registered.numbered found]

/-- **An armed proposal is not stranded as long as there is a delay.** In any state that a run leads
to, the next step of a proposal whose vote is won is to run its action at the very instant that it
was armed for, unless the delay in force is none. Then there is no such instant, and from there on
every call for its execution is refused. -/
theorem Reachable.window_opens (h : e.Reachable) (found : e.state.proposals[id]? = some p)
    (armed : p.armedAt = some eta) (representable : eta.val < 1 <<< 64 - 1)
    (not_canceled : p.canceled = false) (not_executed : p.executed = false)
    (majority : p.tally.against < p.tally.inFavor)
    (quorum : e.state.parameters.quorumThreshold ≤ p.tally.total) :
    (e.state.parameters.executionDelay.isZero = false →
      Timelock.nextStep p eta e.state.parameters = .ok (.run eta)) ∧
    (e.state.parameters.executionDelay.isZero = true → ∀ now, eta ≤ now →
      Timelock.nextStep p now e.state.parameters =
        .error (.invalidPhase id .expired .execute)) := by
  have hstep {now : Timestamp} (reached : eta ≤ now) :=
    h.nextStep_of_armed found armed not_canceled not_executed quorum majority reached
  constructor
  · intro hdelay
    have hpositive : e.state.parameters.executionDelay.val ≠ 0 := by
      rw [Bool.eq_false_iff, ne_eq, Quantity.isZero_iff] at hdelay
      exact hdelay
    rw [hstep (Nat.le_refl _), if_pos]
    omega
  · intro hnone now reached
    have hzero := Quantity.isZero_iff.1 hnone
    rw [hstep reached, if_neg]
    rw [Timestamp.le_def] at reached
    omega

/-- A delay that is amended while a proposal is queued leaves it a window, if a short one. -/
theorem window_opens_of_shorter_delay :
    let alice : Account := ⟨"civ_alice", by decide⟩
    let foundation : Account := ⟨"civ_foundation", by decide⟩
    let host := Rehearsal.host { owner := foundation }
    let payload := Binary.Codec.amendment.write (.set .executionDelay ⟨1, by decide⟩)
    let second : ProposalId := ⟨⟨2, by decide⟩⟩
    let e := run {} [
      (host, .setUp foundation
        { votingDelay := .zero, votingPeriod := ⟨10, by decide⟩, executionDelay := ⟨5, by decide⟩ }),
      (host, .recordBalance alice ⟨5, by decide⟩ ⟨⟨1, by decide⟩⟩),
      (host, .create alice ⟨"raise", "", .external foundation, [1], .zero⟩ ⟨⟨1, by decide⟩⟩),
      (host, .create alice ⟨"amend", "", .parameterStore, payload, .zero⟩ ⟨⟨1, by decide⟩⟩),
      (host, .vote alice .first .inFavor "" ⟨⟨1, by decide⟩⟩),
      (host, .vote alice second .inFavor "" ⟨⟨1, by decide⟩⟩),
      (host, .execute second ⟨⟨12, by decide⟩⟩),
      (host, .execute .first ⟨⟨13, by decide⟩⟩),
      (host, .execute second ⟨⟨17, by decide⟩⟩)]
    e.state.parameters.executionDelay.val = 1 ∧
      ∃ p, e.state.proposals[ProposalId.first]? = some p ∧
        Timelock.nextStep p ⟨⟨18, by decide⟩⟩ e.state.parameters =
          .ok (.run ⟨⟨18, by decide⟩⟩) := by
  intro alice foundation host payload second e
  have hreachable : e.Reachable := reachable_run _
  have hdelay : e.state.parameters.executionDelay.val = 1 := by decide +kernel
  have hquorum : e.state.parameters.quorumThreshold = .zero := by decide +kernel
  have hrecord : e.state.proposals[ProposalId.first]?.map (fun p =>
      (p.armedAt, p.canceled, p.executed, p.tally.against.val, p.tally.inFavor.val)) =
        some (some ⟨⟨18, by decide⟩⟩, false, false, 0, 5) := by
    decide +kernel
  obtain ⟨p, found, hp⟩ := Option.map_eq_some_iff.1 hrecord
  obtain ⟨harmed, hcanceled, hexecuted, hagainst, hfavor⟩ := by
    simpa only [Prod.mk.injEq] using hp
  have hmajority : p.tally.against < p.tally.inFavor := by
    rw [Quantity.lt_def, hagainst, hfavor]
    decide
  refine ⟨hdelay, p, found, (hreachable.window_opens found harmed (by decide) hcanceled hexecuted
    hmajority (by rw [hquorum]; exact Nat.zero_le _)).1 ?_⟩
  rw [Bool.eq_false_iff, ne_eq, Quantity.isZero_iff, hdelay]
  decide

/-- **A proposal is stranded where the delay is taken away while it is queued.** An instant before
the one that it was armed for it still waits, and at that instant it has expired. -/
theorem stranded_without_delay :
    let alice : Account := ⟨"civ_alice", by decide⟩
    let foundation : Account := ⟨"civ_foundation", by decide⟩
    let host := Rehearsal.host { owner := foundation }
    let payload := Binary.Codec.amendment.write (.set .executionDelay .zero)
    let second : ProposalId := ⟨⟨2, by decide⟩⟩
    let calls : List (Host × Call) := [
      (host, .setUp foundation
        { votingDelay := .zero, votingPeriod := ⟨10, by decide⟩, executionDelay := ⟨5, by decide⟩ }),
      (host, .recordBalance alice ⟨5, by decide⟩ ⟨⟨1, by decide⟩⟩),
      (host, .create alice ⟨"raise", "", .external foundation, [1], .zero⟩ ⟨⟨1, by decide⟩⟩),
      (host, .create alice ⟨"amend", "", .parameterStore, payload, .zero⟩ ⟨⟨1, by decide⟩⟩),
      (host, .vote alice .first .inFavor "" ⟨⟨1, by decide⟩⟩),
      (host, .vote alice second .inFavor "" ⟨⟨1, by decide⟩⟩),
      (host, .execute second ⟨⟨12, by decide⟩⟩),
      (host, .execute .first ⟨⟨13, by decide⟩⟩),
      (host, .execute second ⟨⟨17, by decide⟩⟩)]
    let e := run {} calls
    ∃ p, e.state.proposals[ProposalId.first]? = some p ∧
      p.armedAt = some ⟨⟨18, by decide⟩⟩ ∧ p.canceled = false ∧ p.executed = false ∧
      p.tally.against < p.tally.inFavor ∧
      e.state.parameters.quorumThreshold ≤ p.tally.total ∧
      Timelock.nextStep p ⟨⟨17, by decide⟩⟩ e.state.parameters =
        .ok (.wait ⟨⟨18, by decide⟩⟩) ∧
      Timelock.nextStep p ⟨⟨18, by decide⟩⟩ e.state.parameters =
        .error (.invalidPhase .first .expired .execute) := by
  intro alice foundation host payload second calls e
  have hrecord : e.state.proposals[ProposalId.first]?.map (fun p =>
      (p.armedAt, p.canceled, p.executed, p.tally.against.val, p.tally.inFavor.val)) =
        some (some ⟨⟨18, by decide⟩⟩, false, false, 0, 5) := by
    decide +kernel
  have hsteps : e.state.proposals[ProposalId.first]?.map (fun p =>
      (Timelock.nextStep p ⟨⟨17, by decide⟩⟩ e.state.parameters,
        Timelock.nextStep p ⟨⟨18, by decide⟩⟩ e.state.parameters)) =
      some (.ok (.wait ⟨⟨18, by decide⟩⟩), .error (.invalidPhase .first .expired .execute)) := by
    decide +kernel
  have hquorum : e.state.parameters.quorumThreshold = .zero := by decide +kernel
  obtain ⟨p, found, hp⟩ := Option.map_eq_some_iff.1 hrecord
  obtain ⟨harmed, hcanceled, hexecuted, hagainst, hfavor⟩ := by
    simpa only [Prod.mk.injEq] using hp
  have hmajority : p.tally.against < p.tally.inFavor := by
    rw [Quantity.lt_def, hagainst, hfavor]
    decide
  rw [found, Option.map_some, Option.some.injEq, Prod.mk.injEq] at hsteps
  exact ⟨p, found, harmed, hcanceled, hexecuted, hmajority,
    by rw [hquorum]; exact Nat.zero_le _, hsteps⟩

end Engine
end TokenGovernance
