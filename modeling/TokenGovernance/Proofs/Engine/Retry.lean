/-
# Amendments that can be tried again

A proposal for the parameter store is created only if it carries no value and its payload is an
amendment, and no call touches a draft, so whenever it comes to execution there is an amendment to
apply (`Engine.Reachable.amending`). What is left to refuse it, once it is due, are the parameters
in force:

| refused for | because of |
| --- | --- |
| unsound parameters | the record that the amendment makes |
| overflow | a version that is the largest there is |

Either way nothing changes, and as long as no other amendment changes the parameters the proposal
can be executed until it expires (`Engine.Continued.amendment_retryable`).
-/

import TokenGovernance.Proofs.Engine.Finality
import TokenGovernance.Proofs.Engine.Resumption

namespace TokenGovernance

/-! ### When an action is due -/

/-- Whether a step carries out the action at once. -/
def Timelock.Step.isDue (now : Timestamp) : Timelock.Step → Bool
  | .arm eta => eta ≤ now
  | .wait _ => false
  | .run _ => true

namespace Proposal

variable {p : Proposal} {now later eta : Timestamp} {parameters : Parameters}

/-- A proposal is due when its next step is to carry out its action. -/
theorem exists_due_iff : (∃ eta, p.Due now parameters eta) ↔
    ∃ step, Timelock.nextStep p now parameters = .ok step ∧ step.isDue now = true := by
  constructor
  · rintro ⟨eta, hdue⟩
    cases hdue with
    | armed queued armed reached =>
      exact ⟨.run eta, Timelock.nextStep_eq_ok_iff.2 ⟨queued, armed, reached⟩, rfl⟩
    | undelayed succeeded none =>
      refine ⟨.arm now, Timelock.nextStep_eq_ok_iff.2 ⟨succeeded, ?_⟩,
        decide_eq_true (Nat.le_refl _)⟩
      rw [none, Nat.add_zero]
  · rintro ⟨step, hstep, hdue⟩
    rw [Timelock.nextStep_eq_ok_iff] at hstep
    cases step with
    | arm eta =>
      obtain ⟨succeeded, delayed⟩ := hstep
      have hle : eta.val ≤ now.val := of_decide_eq_true hdue
      exact ⟨now, .undelayed succeeded (by omega)⟩
    | wait eta => cases hdue
    | run eta =>
      obtain ⟨queued, armed, reached⟩ := hstep
      exact ⟨eta, .armed queued armed reached⟩

/-- **What is due stays due until it expires.** -/
theorem Due.of_le (h : p.Due now parameters eta) (hle : now ≤ later) :
    p.phase later parameters = .expired ∨ ∃ eta, p.Due later parameters eta := by
  have hpassed := h.passed.of_le hle
  cases h with
  | armed queued armed reached =>
    rcases hexpired : eta.hasExpired parameters.executionDelay later with _ | _
    · exact .inr ⟨eta, .armed (phase_eq_queued_iff.2 ⟨hpassed, eta, armed, hexpired⟩) armed
        (Nat.le_trans reached hle)⟩
    · exact .inl (phase_eq_expired_iff.2 ⟨hpassed, eta, armed, hexpired⟩)
  | undelayed succeeded none =>
    have hunarmed := (phase_eq_succeeded_iff.1 succeeded).2
    exact .inr ⟨later, .undelayed (phase_eq_succeeded_iff.2 ⟨hpassed, hunarmed⟩) none⟩

/-- A proposal that is due is not armed for later. -/
theorem Due.not_delayed (h : p.Due now parameters eta)
    (succeeded : p.phase now parameters = .succeeded) : parameters.executionDelay.val = 0 := by
  cases h with
  | armed queued =>
    rw [succeeded] at queued
    cases queued
  | undelayed _ none => exact none

/-- A proposal asks for an amendment that can be read. -/
structure Amending (p : Proposal) (amendment : Amendment) : Prop where
  internal : p.target = .parameterStore
  free : p.value.isZero = true
  decoded : Amendment.decode p.payload = .ok amendment

end Proposal

namespace Engine

variable {e : Engine} {host : Host} {id : ProposalId} {p : Proposal} {amendment : Amendment}
  {now eta : Timestamp} {f : Fault} {calls : List (Host × Call)}

/-! ### What creation accepted -/

/-- A draft for the parameter store is accepted if it carries no value and an amendment. -/
theorem amending_of_checkAction (h : checkAction p.toDraft = .ok ())
    (internal : p.target = .parameterStore) : ∃ amendment, p.Amending amendment := by
  unfold checkAction at h
  rw [internal] at h
  simp only at h
  split at h
  · cases h
  · rename_i hfree
    rcases hdecoded : Amendment.decode p.payload with f | amendment
    · rw [hdecoded] at h
      cases h
    · exact ⟨amendment, internal, by simpa using hfree, hdecoded⟩

/-- **Every proposal for the parameter store has an amendment to apply.** -/
theorem Reachable.amending (h : e.Reachable) (found : e.state.proposals[id]? = some p)
    (internal : p.target = .parameterStore) : ∃ amendment, p.Amending amendment := by
  obtain ⟨calls, rfl⟩ := h
  obtain ⟨t, -, proposer, told, hcall, hanswer⟩ := created_run calls found
  rcases t.answered_or_refused with ⟨answer, -, ha⟩ | ⟨f, hf, -⟩
  · rw [hcall] at ha
    generalize t.after = e' at ha
    cases ha with
    | create _ _ usable => exact amending_of_checkAction usable internal
  · rw [hanswer] at hf
    cases hf

/-! ### Why an execution fails -/

/-- The execution of an amendment is refused by the timelock or by the amendment itself. -/
theorem Refused.of_amending (h : Refused host e (.execute id now) f)
    (initialized : e.state.initialized = true) (found : e.state.proposals[id]? = some p)
    (asks : p.Amending amendment) :
    Timelock.nextStep p now e.state.parameters = .error f ∨
      amendment.apply e.state.parameters = .error f := by
  cases h with
  | notInitialized _ before =>
    rw [initialized] at before
    cases before
  | unknown named missing =>
    cases named
    rw [found] at missing
    cases missing
  | notExecutable found' refused =>
    cases found.symm.trans found'
    exact .inl refused
  | failed found' _ external =>
    cases found.symm.trans found'
    cases asks.internal.symm.trans external
  | carriesValue found' _ _ paid =>
    cases found.symm.trans found'
    cases asks.free.symm.trans paid
  | undecodable found' _ _ bad =>
    cases found.symm.trans found'
    cases asks.decoded.symm.trans bad
  | inapplicable found' _ _ decoded refused =>
    cases found.symm.trans found'
    cases asks.decoded.symm.trans decoded
    exact .inr refused

/-- The execution of an amendment is never refused for the action. -/
theorem answer_ne_invalidAction (initialized : e.state.initialized = true)
    (found : e.state.proposals[id]? = some p) (asks : p.Amending amendment) (host : Host)
    (now : Timestamp) (why : ActionFault) :
    (Turn.mk e host (.execute id now)).answer ≠ .error (.invalidAction why) := by
  intro hanswer
  rcases (Turn.refused hanswer).of_amending initialized found asks with hstep | happlied
  · rcases Timelock.nextStep_eq_error hstep with hf | hf <;> cases hf
  · rcases Amendment.apply_eq_error happlied with ⟨hf, -⟩ | ⟨why, hf⟩ <;> cases hf

/-- A due execution of an amendment is answered with the parameters that it makes. -/
theorem Answered.apply_eq_ok {answer : Answer} {e' : Engine}
    (h : Answered host e (.execute id now) answer e') (found : e.state.proposals[id]? = some p)
    (asks : p.Amending amendment) (due : p.Due now e.state.parameters eta) :
    amendment.apply e.state.parameters = .ok e'.state.parameters := by
  cases h with
  | wait _ found' queued armed early =>
    cases found.symm.trans found'
    cases due with
    | armed _ armed' reached =>
      cases armed.symm.trans armed'
      exact absurd early (Timestamp.not_lt.2 reached)
    | undelayed succeeded => cases queued.symm.trans succeeded
  | arm _ found' succeeded delayed later =>
    cases found.symm.trans found'
    have hnone := due.not_delayed succeeded
    rw [Timestamp.lt_def] at later
    omega
  | invoke _ found' _ external =>
    cases found.symm.trans found'
    cases asks.internal.symm.trans external
  | amend _ found' _ _ _ decoded applied =>
    cases found.symm.trans found'
    cases asks.decoded.symm.trans decoded
    exact applied

/-- **A due execution of an amendment fails exactly if the amendment does**, for the same reason. -/
theorem answer_eq_error_iff_of_due (initialized : e.state.initialized = true)
    (found : e.state.proposals[id]? = some p) (asks : p.Amending amendment)
    (due : p.Due now e.state.parameters eta) (host : Host) :
    (Turn.mk e host (.execute id now)).answer = .error f ↔
      amendment.apply e.state.parameters = .error f := by
  have of_refused {f : Fault} (h : Refused host e (.execute id now) f) :
      amendment.apply e.state.parameters = .error f := by
    refine (h.of_amending initialized found asks).resolve_left fun hrefused => ?_
    obtain ⟨step, hstep, -⟩ := Proposal.exists_due_iff.1 ⟨eta, due⟩
    cases hstep.symm.trans hrefused
  refine ⟨fun h => of_refused (Turn.refused h), fun h => ?_⟩
  rcases (Turn.mk e host (.execute id now)).answered_or_refused with
    ⟨answer, -, ha⟩ | ⟨f', hf', -, hrefused⟩
  · cases h.symm.trans (ha.apply_eq_ok found asks due)
  · cases h.symm.trans (of_refused hrefused)
    exact hf'

end Engine

namespace Turn

variable {t : Turn} {id : ProposalId} {p : Proposal} {amendment : Amendment}
  {now eta : Timestamp}

/-- **A turn that amends nothing leaves a due amendment as it is.** A call that carried it out would
amend the parameters, and a call that comes when it has expired is not answered. -/
theorem found_of_due (hr : t.before.state.Registered)
    (found : t.before.state.proposals[id]? = some p) (asks : p.Amending amendment)
    (due : p.Due now t.before.state.parameters eta) (late : ∀ told ∈ t.call.time?, now ≤ told)
    (same : t.after.state.parameters = t.before.state.parameters) :
    t.after.state.proposals[id]? = some p := by
  by_cases hfurthers : t.Furthers id
  · obtain ⟨told, answer, hcall, hanswer⟩ := hfurthers
    obtain ⟨_, -, ha⟩ := Turn.answered (t := t) (by rw [hanswer]; rfl)
    rw [hcall] at ha late
    rcases due.of_le (late told rfl) with hexpired | ⟨_, hdue⟩
    · obtain ⟨q, told', hcall', hq, hready⟩ := Furthers.phase ⟨told, answer, hcall, hanswer⟩
      cases hcall.symm.trans hcall'
      cases found.symm.trans hq
      rw [hexpired] at hready
      rcases hready with hphase | hphase <;> cases hphase
    · exact absurd same (Amendment.ne_of_apply (ha.apply_eq_ok found asks hdue))
  · have closed : ∀ told ∈ t.call.time?, p.startTime ≤ told ∧ p.endTime < told := by
      intro told htold
      have hpassed := due.passed.of_le (late told htold)
      exact ⟨hpassed.started, hpassed.closed⟩
    exact (unchanged_of_not_furthers hr found closed hfurthers).1.trans found

end Turn

namespace Engine

variable {e : Engine} {id : ProposalId} {p : Proposal} {amendment : Amendment}
  {now eta : Timestamp} {calls : List (Host × Call)}

/-- **A due amendment is left as it is by all calls that amend nothing.** -/
theorem Reachable.found_of_due (h : e.Reachable) (found : e.state.proposals[id]? = some p)
    (asks : p.Amending amendment) (due : p.Due now e.state.parameters eta)
    (late : ∀ told ∈ times calls, now ≤ told)
    (same : (e.run calls).state.parameters = e.state.parameters) :
    (e.run calls).state.proposals[id]? = some p := by
  induction calls generalizing e with
  | nil => exact found
  | cons turn calls ih =>
    obtain ⟨host, c⟩ := turn
    have hsame : (e.run [(host, c)]).state.parameters = e.state.parameters :=
      h.parameters_after_eq (h.registered.initialized found) same
    have hlate {turn : Host × Call} (hmem : turn ∈ (host, c) :: calls) {told : Timestamp}
        (htold : turn.2.time? = some told) : now ≤ told :=
      late told (mem_times.2 ⟨turn, hmem, htold⟩)
    have hkept := Turn.found_of_due (t := ⟨e, host, c⟩) h.registered found asks due
      (fun told htold => hlate List.mem_cons_self htold) hsame
    have hdue : p.Due now (e.run [(host, c)]).state.parameters eta := by
      rw [hsame]
      exact due
    refine ih (h.run [(host, c)]) hkept hdue (fun told htold => ?_) (same.trans hsame.symm)
    obtain ⟨turn, hmem, htold⟩ := mem_times.1 htold
    exact hlate (List.mem_cons_of_mem _ hmem) htold

/-- **What creation accepted, execution can decode, and try again.** In an engine that was called,
saved and loaded in any order, a proposal for the parameter store carries no value and its payload
is an amendment, so its execution is never refused as an unusable action. Once its next step is to
carry out the action, the execution fails exactly if the amendment does: for parameters that are not
sound, or for a version that is the largest there is. Then nothing has changed; and after any later
calls that leave the parameters as they were, the proposal is still recorded as it was and its next
step is to carry out the action, until it expires. -/
theorem Continued.amendment_retryable (h : e.Continued) (found : e.state.proposals[id]? = some p)
    (internal : p.target = .parameterStore) :
    p.value.val = 0 ∧ ∃ amendment, Amendment.decode p.payload = .ok amendment ∧
      (∀ host now why,
        (Turn.mk e host (.execute id now)).answer ≠ .error (.invalidAction why)) ∧
      ∀ now step, Timelock.nextStep p now e.state.parameters = .ok step → step.isDue now = true →
        ∀ host f,
          ((Turn.mk e host (.execute id now)).answer = .error f ↔
            amendment.apply e.state.parameters = .error f) ∧
          ((Turn.mk e host (.execute id now)).answer = .error f →
            ((∃ why, f = .invalidParameters why) ∨
              f = .overflow ∧ e.state.parameters.version.val = 1 <<< 64 - 1) ∧
            (Turn.mk e host (.execute id now)).after = e ∧
            ∀ calls, (∀ told ∈ times calls, now ≤ told) →
              (e.run calls).state.parameters = e.state.parameters →
              (e.run calls).state.proposals[id]? = some p ∧
              ∀ later, now ≤ later → p.phase later e.state.parameters ≠ .expired →
                ∃ step, Timelock.nextStep p later e.state.parameters = .ok step ∧
                  step.isDue later = true) := by
  obtain ⟨e', hreachable, hstate⟩ := h.exists_reachable
  have found' : e'.state.proposals[id]? = some p := by rwa [hstate]
  have initialized : e.state.initialized = true := by
    rw [← hstate]
    exact hreachable.registered.initialized found'
  obtain ⟨amendment, asks⟩ := hreachable.amending found' internal
  refine ⟨Quantity.isZero_iff.1 asks.free, amendment, asks.decoded,
    answer_ne_invalidAction initialized found asks, fun now step hstep hdue host f => ?_⟩
  obtain ⟨eta, due⟩ := Proposal.exists_due_iff.2 ⟨step, hstep, hdue⟩
  have hfails := answer_eq_error_iff_of_due (f := f) initialized found asks due host
  refine ⟨hfails, fun hf => ⟨?_, ?_, fun calls late same => ⟨?_, fun later hle hlive => ?_⟩⟩⟩
  · rcases Amendment.apply_eq_error (hfails.1 hf) with ⟨hoverflow, hversion⟩ | hwhy
    · have hlt := e.state.parameters.version.val_lt
      exact .inr ⟨hoverflow, by omega⟩
    · exact .inl hwhy
  · rcases (Turn.mk e host (.execute id now)).answered_or_refused with
      ⟨answer, hanswer, -⟩ | ⟨f', -, hkept, -⟩
    · cases hf.symm.trans hanswer
    · exact hkept
  · rw [← hstate] at due
    have hrun := run_state_congr hstate calls
    rw [← hrun]
    refine hreachable.found_of_due found' asks due late ?_
    rw [hrun, same, hstate]
  · exact Proposal.exists_due_iff.1 ((due.of_le hle).resolve_left hlive)

/-- An empty voting period is asked for in an engine that is saved after the vote. The one that is
loaded refuses it at the end of the window, and is ready to try again after another call. -/
theorem amendment_retryable_of_empty_period :
    let alice : Account := ⟨"civ_alice", by decide⟩
    let foundation : Account := ⟨"civ_foundation", by decide⟩
    let host := Rehearsal.host { owner := foundation }
    let payload := Binary.Codec.amendment.write (.set .votingPeriod .zero)
    let e := run {} [
      (host, .setUp foundation
        { votingDelay := .zero, votingPeriod := ⟨10, by decide⟩, executionDelay := .zero }),
      (host, .recordBalance alice ⟨5, by decide⟩ ⟨⟨1, by decide⟩⟩),
      (host, .create alice ⟨"amend", "", .parameterStore, payload, .zero⟩ ⟨⟨1, by decide⟩⟩),
      (host, .vote alice .first .inFavor "" ⟨⟨1, by decide⟩⟩)]
    let reloaded : Engine := { state := e.state }
    let calls : List (Host × Call) :=
      [(host, .recordBalance alice ⟨7, by decide⟩ ⟨⟨20, by decide⟩⟩)]
    reloaded.Continued ∧
      (Turn.mk reloaded host (.execute .first ⟨⟨12, by decide⟩⟩)).answer =
        .error (.invalidParameters (.unsound .emptyPeriod)) ∧
      ∃ p, (reloaded.run calls).state.proposals[ProposalId.first]? = some p ∧
        ∃ step, Timelock.nextStep p ⟨⟨30, by decide⟩⟩ reloaded.state.parameters = .ok step ∧
          step.isDue ⟨⟨30, by decide⟩⟩ = true := by
  intro alice foundation host payload e reloaded calls
  let now : Timestamp := ⟨⟨12, by decide⟩⟩
  let later : Timestamp := ⟨⟨30, by decide⟩⟩
  have hreachable : e.Reachable := reachable_run _
  have hrecordable : e.state.Recordable := by decide +kernel
  have hshort : (Binary.Codec.snapshot.write e.state).length < 1 <<< 64 := by decide +kernel
  have hworking : ({} : Store).failure = none := rfl
  have hcontinued : reloaded.Continued :=
    .reloaded hreachable.continued hrecordable e.state.spelledBy_write hshort
      (State.perform_saveAs hworking e.state _)
      (State.load_saved hworking hreachable.filed hrecordable e.state.spelledBy_write hshort)
  have hrecord : reloaded.state.proposals[ProposalId.first]?.map (fun p =>
      (p.target, p.phase now reloaded.state.parameters,
        p.phase later reloaded.state.parameters)) =
          some (.parameterStore, .succeeded, .succeeded) := by
    decide +kernel
  obtain ⟨p, found, hp⟩ := Option.map_eq_some_iff.1 hrecord
  obtain ⟨hinternal, hphase, hlater⟩ := by simpa only [Prod.mk.injEq] using hp
  have hanswer : (Turn.mk reloaded host (.execute .first now)).answer =
      .error (.invalidParameters (.unsound .emptyPeriod)) := by
    decide +kernel
  have hnone : reloaded.state.parameters.executionDelay = .zero := by decide +kernel
  have hstep : Timelock.nextStep p now reloaded.state.parameters = .ok (.arm now) :=
    Timelock.nextStep_eq_ok_iff.2 ⟨hphase, by rw [hnone]; rfl⟩
  obtain ⟨-, amendment, -, -, hretry⟩ := hcontinued.amendment_retryable found hinternal
  obtain ⟨-, hfails⟩ := hretry now _ hstep (by decide) host _
  obtain ⟨-, -, hkept⟩ := hfails hanswer
  obtain ⟨found', hready⟩ := hkept calls (by decide) (by decide +kernel)
  exact ⟨hcontinued, hanswer, p, found', hready later (by decide) (by rw [hlater]; nofun)⟩

end Engine
end TokenGovernance
