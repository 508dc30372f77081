/-
# Phases and the timelock

The phase of a proposal is the first condition of a table that holds. `Proposal.Passed` is what
remains of the table once the vote is won. So each phase has a condition of its own:

| phase | condition |
| --- | --- |
| `canceled` | canceled |
| `executed` | executed and not canceled |
| `pending` | neither, before the window |
| `active` | neither, inside the window |
| `defeated` | neither, after the window, without the quorum or without a majority |
| `succeeded` | passed and not armed |
| `queued` | passed and armed, not expired |
| `expired` | passed and armed, expired |

A proposal is due (`Proposal.Due`) when its action may be carried out: it is queued and its time
has come, or it is not armed yet and there is no delay to wait for.
-/

import TokenGovernance.Proofs.Quantity
import TokenGovernance.Timelock

namespace TokenGovernance

namespace Tally

variable {t t' : Tally} {support side : Support} {weight : Amount} {f : Fault}

/-- The participation never exceeds the exact sum of the three sides. -/
theorem total_le (t : Tally) : t.total.val ≤ t.inFavor.val + t.against.val + t.abstain.val := by
  simp only [total, Quantity.saturatingAdd_val]
  omega

/-- A tally is what its columns are. -/
theorem ext_column (h : ∀ side, (t.column side).val = (t'.column side).val) : t = t' := by
  have hagainst : t.against = t'.against := Quantity.ext (h .against)
  have hinFavor : t.inFavor = t'.inFavor := Quantity.ext (h .inFavor)
  have habstain : t.abstain = t'.abstain := Quantity.ext (h .abstain)
  obtain ⟨_, _, _⟩ := t
  obtain ⟨_, _, _⟩ := t'
  simp only at hagainst hinFavor habstain
  rw [hagainst, hinFavor, habstain]

/-- A vote more is counted on its side, exactly, and on no other. -/
theorem column_of_cast (h : t.cast support weight = .ok t') (side : Support) :
    (t'.column side).val = (t.column side).val + if support = side then weight.val else 0 := by
  unfold cast at h
  rcases hc : t.cast? support weight with _ | u
  · rw [hc] at h
    cases h
  rw [hc] at h
  cases h
  unfold cast? at hc
  cases support <;>
    · obtain ⟨sum, hsum, rfl⟩ := Option.map_eq_some_iff.1 hc
      have := Quantity.add?_eq_some_iff.1 hsum
      cases side <;> simp [column, this]

/-- A vote is refused when its side cannot hold it. -/
theorem cast_eq_error_iff : t.cast support weight = .error f ↔
    1 <<< 128 ≤ (t.column support).val + weight.val ∧ f = .overflow := by
  rw [← Quantity.add?_eq_none_iff]
  unfold cast cast? column
  cases support <;>
    · simp only
      generalize Quantity.add? _ weight = sum
      cases sum <;> simp [Fault.orOverflow, eq_comm]

end Tally

namespace Proposal

variable {p : Proposal} {now eta : Timestamp} {parameters : Parameters}

/-- The vote is over and won, and the proposal was neither withdrawn nor carried out. -/
structure Passed (p : Proposal) (now : Timestamp) (parameters : Parameters) : Prop where
  not_canceled : p.canceled = false
  not_executed : p.executed = false
  started : p.startTime ≤ now
  closed : p.endTime < now
  quorum : parameters.quorumThreshold ≤ p.tally.total
  majority : p.tally.against < p.tally.inFavor

/-- The quorum is met by the exact participation. -/
theorem Passed.quorum_exact (h : p.Passed now parameters) :
    parameters.quorumThreshold.val ≤
      p.tally.inFavor.val + p.tally.against.val + p.tally.abstain.val :=
  Nat.le_trans h.quorum p.tally.total_le

/-- A proposal is canceled when it is marked so, whatever else holds of it. -/
theorem phase_eq_canceled_iff : p.phase now parameters = .canceled ↔ p.canceled = true := by
  unfold phase
  grind

/-- A proposal is executed when it is marked so, unless it is canceled. -/
theorem phase_eq_executed_iff :
    p.phase now parameters = .executed ↔ p.canceled = false ∧ p.executed = true := by
  unfold phase
  grind

/-- An open proposal is pending before its window. -/
theorem phase_eq_pending_iff : p.phase now parameters = .pending ↔
    p.canceled = false ∧ p.executed = false ∧ now < p.startTime := by
  unfold phase
  grind

/-- An open proposal is active inside its window, both ends included. -/
theorem phase_eq_active_iff : p.phase now parameters = .active ↔
    p.canceled = false ∧ p.executed = false ∧ p.startTime ≤ now ∧ now ≤ p.endTime := by
  unfold phase
  grind [Timestamp.le_def, Timestamp.lt_def]

/-- A proposal that is pending or active is neither canceled nor executed. -/
theorem open_of_phase
    (h : p.phase now parameters = .pending ∨ p.phase now parameters = .active) :
    p.canceled = false ∧ p.executed = false := by
  rcases h with h | h
  · obtain ⟨hcanceled, hexecuted, -⟩ := phase_eq_pending_iff.1 h
    exact ⟨hcanceled, hexecuted⟩
  · obtain ⟨hcanceled, hexecuted, -⟩ := phase_eq_active_iff.1 h
    exact ⟨hcanceled, hexecuted⟩

/-- What a proposal is defeated for. -/
theorem phase_eq_defeated_iff : p.phase now parameters = .defeated ↔
    p.canceled = false ∧ p.executed = false ∧ p.startTime ≤ now ∧ p.endTime < now ∧
      (p.tally.total < parameters.quorumThreshold ∨ p.tally.inFavor ≤ p.tally.against) := by
  unfold phase
  grind [Timestamp.le_def, Timestamp.lt_def]

/-- Once the vote is won, arming and time decide the phase. -/
theorem Passed.phase_eq (h : p.Passed now parameters) :
    p.phase now parameters =
      match p.armedAt with
      | none => .succeeded
      | some eta => if eta.hasExpired parameters.executionDelay now then .expired else .queued := by
  obtain ⟨hc, he, hs, hend, hq, hm⟩ := h
  rcases ha : p.armedAt with _ | eta <;>
    simp only [phase, hc, he, ha, Bool.false_eq_true, if_false, if_neg (Timestamp.not_lt.2 hs),
      if_neg (Timestamp.not_le.2 hend), if_neg (Quantity.not_lt.2 hq),
      if_neg (Quantity.not_le.2 hm)]

/-- The phases that only a vote that was won leads to. -/
theorem passed_of_phase (h : p.phase now parameters = .succeeded ∨
    p.phase now parameters = .queued ∨ p.phase now parameters = .expired) :
    p.Passed now parameters := by
  unfold phase at h
  split at h
  · simp at h
  split at h
  · simp at h
  split at h
  · simp at h
  split at h
  · simp at h
  split at h
  · simp at h
  split at h
  · simp at h
  rename_i hc he hs hend hq hm
  exact ⟨by simpa using hc, by simpa using he, Timestamp.not_lt.1 hs, Timestamp.not_le.1 hend,
    Quantity.not_lt.1 hq, Quantity.not_le.1 hm⟩

/-- A proposal has succeeded when its vote is won and it was not armed. -/
theorem phase_eq_succeeded_iff :
    p.phase now parameters = .succeeded ↔ p.Passed now parameters ∧ p.armedAt = none := by
  constructor
  · intro h
    have hp := passed_of_phase (.inl h)
    rw [hp.phase_eq] at h
    refine ⟨hp, ?_⟩
    split at h
    · assumption
    · split at h <;> cases h
  · rintro ⟨hp, ha⟩
    rw [hp.phase_eq, ha]

/-- Once an armed vote is won, the delay in force decides between the two phases that are left. -/
theorem Passed.phase_of_armed (h : p.Passed now parameters) (ha : p.armedAt = some eta) :
    p.phase now parameters =
      if eta.hasExpired parameters.executionDelay now then .expired else .queued := by
  rw [h.phase_eq, ha]

/-- A proposal that is queued or expired was armed, and its vote is won. -/
theorem armed_of_phase
    (h : p.phase now parameters = .queued ∨ p.phase now parameters = .expired) :
    p.Passed now parameters ∧ ∃ eta, p.armedAt = some eta := by
  have hp := passed_of_phase (.inr h)
  refine ⟨hp, Option.ne_none_iff_exists'.1 fun hnone => ?_⟩
  rw [phase_eq_succeeded_iff.2 ⟨hp, hnone⟩] at h
  rcases h with h | h <;> cases h

/-- A proposal is queued when its vote is won and it was armed for an instant that has not
expired. -/
theorem phase_eq_queued_iff : p.phase now parameters = .queued ↔
    p.Passed now parameters ∧
      ∃ eta, p.armedAt = some eta ∧ eta.hasExpired parameters.executionDelay now = false := by
  constructor
  · intro h
    obtain ⟨hp, eta, ha⟩ := armed_of_phase (.inl h)
    rw [hp.phase_of_armed ha] at h
    refine ⟨hp, eta, ha, Bool.eq_false_iff.2 fun hx => ?_⟩
    rw [if_pos hx] at h
    cases h
  · rintro ⟨hp, eta, ha, hx⟩
    rw [hp.phase_of_armed ha, if_neg (Bool.eq_false_iff.1 hx)]

/-- A proposal is expired when its vote is won and the instant it was armed for has expired, by the
delay in force. -/
theorem phase_eq_expired_iff : p.phase now parameters = .expired ↔
    p.Passed now parameters ∧
      ∃ eta, p.armedAt = some eta ∧ eta.hasExpired parameters.executionDelay now = true := by
  constructor
  · intro h
    obtain ⟨hp, eta, ha⟩ := armed_of_phase (.inr h)
    rw [hp.phase_of_armed ha] at h
    refine ⟨hp, eta, ha, Decidable.not_not.1 fun hx => ?_⟩
    rw [if_neg hx] at h
    cases h
  · rintro ⟨hp, eta, ha, hx⟩
    rw [hp.phase_of_armed ha, if_pos hx]

/-- When the action of a proposal may be carried out, and since when it is due. -/
inductive Due (p : Proposal) (now : Timestamp) (parameters : Parameters) : Timestamp → Prop where
  /-- The proposal is queued, and its time has come. -/
  | armed {eta : Timestamp} (queued : p.phase now parameters = .queued)
      (armed : p.armedAt = some eta) (reached : eta ≤ now) : Due p now parameters eta
  /-- The proposal succeeded, and there is no delay to wait for. -/
  | undelayed (succeeded : p.phase now parameters = .succeeded)
      (none : parameters.executionDelay.val = 0) : Due p now parameters now

/-- A proposal that is due has passed. -/
theorem Due.passed (h : p.Due now parameters eta) : p.Passed now parameters := by
  cases h with
  | armed queued => exact (phase_eq_queued_iff.1 queued).1
  | undelayed succeeded => exact (phase_eq_succeeded_iff.1 succeeded).1

/-- Nothing is due before its instant. -/
theorem Due.reached (h : p.Due now parameters eta) : eta ≤ now := by
  cases h with
  | armed _ _ reached => exact reached
  | undelayed => exact Nat.le_refl _

end Proposal

namespace Timelock

variable {p : Proposal} {now eta : Timestamp} {parameters : Parameters}

/-- A proposal that has succeeded is armed for one delay from now. -/
theorem nextStep_of_succeeded (h : p.phase now parameters = .succeeded) :
    nextStep p now parameters =
      Step.arm <$> Fault.orOverflow (now.after? parameters.executionDelay) := by
  have ha := (Proposal.phase_eq_succeeded_iff.1 h).2
  simp only [nextStep, h, ha]

/-- A queued proposal runs from the instant on that it was armed for, and waits until then. -/
theorem nextStep_of_queued (h : p.phase now parameters = .queued) (ha : p.armedAt = some eta) :
    nextStep p now parameters = if eta ≤ now then .ok (.run eta) else .ok (.wait eta) := by
  simp only [nextStep, h, ha]

/-- No other phase has a next step. -/
theorem nextStep_of_ne (hs : p.phase now parameters ≠ .succeeded)
    (hq : p.phase now parameters ≠ .queued) : nextStep p now parameters =
      .error (.invalidPhase p.id (p.phase now parameters) .execute) := by
  unfold nextStep
  split
  · rename_i h _
    exact absurd h hs
  · rename_i h _
    exact absurd h hq
  · rfl

/-- A next step is refused for the phase, or because the time of execution is not representable. -/
theorem nextStep_eq_error {f : Fault} (h : nextStep p now parameters = .error f) :
    f = .overflow ∨ f = .invalidPhase p.id (p.phase now parameters) .execute := by
  by_cases hs : p.phase now parameters = .succeeded
  · rw [nextStep_of_succeeded hs] at h
    rcases ho : Fault.orOverflow (now.after? parameters.executionDelay) with f' | eta
    · rw [ho] at h
      cases h
      exact .inl (Timestamp.checkedAfter_eq_error_iff.1 ho).2
    · rw [ho] at h
      cases h
  by_cases hq : p.phase now parameters = .queued
  · obtain ⟨-, eta, ha, -⟩ := Proposal.phase_eq_queued_iff.1 hq
    rw [nextStep_of_queued hq ha] at h
    split at h <;> cases h
  · rw [nextStep_of_ne hs hq] at h
    cases h
    exact .inr rfl

/-- **What a call for execution does, and when.** -/
theorem nextStep_eq_ok_iff {step : Step} : nextStep p now parameters = .ok step ↔
    match step with
    | .arm eta =>
      p.phase now parameters = .succeeded ∧ eta.val = now.val + parameters.executionDelay.val
    | .wait eta => p.phase now parameters = .queued ∧ p.armedAt = some eta ∧ now < eta
    | .run eta => p.phase now parameters = .queued ∧ p.armedAt = some eta ∧ eta ≤ now := by
  by_cases hs : p.phase now parameters = .succeeded
  · rw [nextStep_of_succeeded hs, hs, Fault.map_eq_ok_iff]
    cases step with
    | arm eta => simp [Timestamp.checkedAfter_eq_ok_iff]
    | wait eta => simp
    | run eta => simp
  by_cases hq : p.phase now parameters = .queued
  · obtain ⟨-, u, ha, -⟩ := Proposal.phase_eq_queued_iff.1 hq
    rw [nextStep_of_queued hq ha, hq, ha]
    by_cases hle : u ≤ now
    · rw [if_pos hle]
      cases step with
      | arm eta => simp
      | wait eta => grind [Timestamp.le_def, Timestamp.lt_def]
      | run eta => grind
    · rw [if_neg hle]
      cases step with
      | arm eta => simp
      | wait eta => grind [Timestamp.le_def, Timestamp.lt_def]
      | run eta => grind
  · rw [nextStep_of_ne hs hq]
    cases step <;> simp [hs, hq]

end Timelock
end TokenGovernance
