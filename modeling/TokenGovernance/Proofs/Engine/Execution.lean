/-
# Carried out once, and not too early

A turn either carries out the action of one proposal or is quiet: it invokes nothing, amends no
parameters and marks nothing as executed (`Turn.quiet_or_carriesOut`). From this the timelock is
read off over a whole run (`Engine.timelock`):

| over a run | because in a turn |
| --- | --- |
| an action is carried out once | a proposal that is due was not executed, and then it is |
| it is carried out as drafted | no change touches a draft |
| a proposal is armed once | it is armed when it has succeeded, so not armed yet |
| it is armed after its window | it has succeeded when its window is closed |
-/

import TokenGovernance.Host.Rehearsal
import TokenGovernance.Proofs.Engine.Registry

namespace TokenGovernance

/-- The outside actions that carrying out a proposal comes to. -/
def Proposal.action (p : Proposal) : List Invocation :=
  match p.target with
  | .external target => [⟨target, p.payload, p.value⟩]
  | .parameterStore => []

namespace State

/-- Since when the proposal with a number is due, once it is armed. -/
def armedAt? (s : State) (id : ProposalId) : Option Timestamp := s.proposals[id]?.bind (·.armedAt)

/-- Whether the proposal with a number was executed. -/
def hasExecuted (s : State) (id : ProposalId) : Bool := s.proposals[id]?.any (·.executed)

/-- The outside actions that the proposal with a number should have come to by now. -/
def carriedOut (s : State) (id : ProposalId) : List Invocation :=
  match s.proposals[id]? with
  | some p => if p.executed then p.action else []
  | none => []

variable {s s' : State} {id i : ProposalId} {p p' : Proposal}

/-- A change of a record that does not mark it as executed. -/
theorem hasExecuted_replace (found : s.proposals[i]? = some p)
    (hp : s'.proposals = s.proposals.insert i p') (he : p'.executed = p.executed)
    (id : ProposalId) : s'.hasExecuted id = s.hasExecuted id := by
  unfold hasExecuted
  rw [hp, getElem?_insert_proposal]
  by_cases hid : id = i
  · subst hid
    rw [if_pos rfl, found, Option.any_some, Option.any_some, he]
  · rw [if_neg hid]

/-- A new record that is not marked as executed. -/
theorem hasExecuted_create (new : s.proposals[i]? = none)
    (hp : s'.proposals = s.proposals.insert i p) (he : p.executed = false) (id : ProposalId) :
    s'.hasExecuted id = s.hasExecuted id := by
  unfold hasExecuted
  rw [hp, getElem?_insert_proposal]
  by_cases hid : id = i
  · subst hid
    rw [if_pos rfl, new, Option.any_some, Option.any_none, he]
  · rw [if_neg hid]

/-- What should have been carried out depends on the mark and the draft alone. -/
theorem carriedOut_eq_of_some (found : s.proposals[id]? = some p) :
    s.carriedOut id = if s.hasExecuted id then p.action else [] := by
  unfold carriedOut hasExecuted
  rw [found]
  rfl

/-- Nothing should have come of a proposal that was not executed. -/
theorem carriedOut_eq_nil (h : s.hasExecuted id = false) : s.carriedOut id = [] := by
  rcases found : s.proposals[id]? with _ | p
  · rw [carriedOut, found]
  · rw [carriedOut_eq_of_some found, h]
    rfl

end State

namespace Engine

variable {host : Host} {e e' : Engine} {c : Call} {answer : Answer} {id : ProposalId}
  {p : Proposal} {now eta : Timestamp}

/-- Nothing was carried out between two engines. -/
structure Quiet (e e' : Engine) : Prop where
  invocations : e'.invocations = e.invocations
  parameters : e.state.initialized = true → e'.state.parameters = e.state.parameters
  executed : ∀ id, e'.state.hasExecuted id = e.state.hasExecuted id

/-- A call carries out the action of a proposal that is due. -/
structure CarriesOut (e : Engine) (c : Call) (e' : Engine) (id : ProposalId) (p : Proposal)
    (now eta : Timestamp) : Prop where
  call : c = .execute id now
  found : e.state.proposals[id]? = some p
  due : p.Due now e.state.parameters eta
  noted : e'.state.proposals =
    e.state.proposals.insert id { p with armedAt := some eta, executed := true }
  invocations : e'.invocations = e.invocations ++ p.action

/-- **An answered call is quiet or carries out one action.** -/
theorem Answered.quiet_or_carriesOut (h : Answered host e c answer e')
    (hr : e.state.Registered) :
    Quiet e e' ∨ ∃ id p now eta, CarriesOut e c e' id p now eta := by
  induction h with
  | setUp first =>
    refine .inl ⟨rfl, fun h => ?_, fun _ => rfl⟩
    rw [first] at h
    cases h
  | undelegate _ ih =>
    rcases ih with hquiet | ⟨_, _, _, _, hcarries⟩
    · exact .inl hquiet
    · cases hcarries.call
  | create _ _ _ _ _ next =>
    exact .inl ⟨rfl, fun _ => rfl, State.hasExecuted_create (hr.fresh next) rfl rfl⟩
  | cancel _ found => exact .inl ⟨rfl, fun _ => rfl, State.hasExecuted_replace found rfl rfl⟩
  | vote _ found => exact .inl ⟨rfl, fun _ => rfl, State.hasExecuted_replace found rfl rfl⟩
  | arm _ found => exact .inl ⟨rfl, fun _ => rfl, State.hasExecuted_replace found rfl rfl⟩
  | @invoke id now eta p target output _ found due external =>
    refine .inr ⟨id, p, now, eta, rfl, found, due, rfl, ?_⟩
    rw [Proposal.action, external]
  | @amend id now eta p amendment parameters _ found due internal =>
    refine .inr ⟨id, p, now, eta, rfl, found, due, rfl, ?_⟩
    rw [Proposal.action, internal, List.append_nil]
  | _ => exact .inl ⟨rfl, fun _ => rfl, fun _ => rfl⟩

end Engine

namespace Turn

variable {t : Turn} {id : ProposalId} {p : Proposal} {now eta : Timestamp}

/-- The outside actions that succeeded in a turn. -/
def invoked (t : Turn) : List Invocation := t.after.invocations.drop t.before.invocations.length

/-- The outside actions that succeeded in a turn on behalf of a proposal. -/
def invokedFor (id : ProposalId) (t : Turn) : List Invocation :=
  match t.call with
  | .execute i _ => if i = id then t.invoked else []
  | _ => []

/-- Whether the earliest time of execution of a proposal changes in a turn. -/
def rearms (id : ProposalId) (t : Turn) : Bool :=
  t.after.state.armedAt? id ≠ t.before.state.armedAt? id

/-- A turn carries out the action of a proposal: it is a call for its execution, made when the
proposal is due, its vote is won and the quorum in force is met by the exact participation. -/
def Executes (t : Turn) (id : ProposalId) : Prop :=
  ∃ p now eta, t.call = .execute id now ∧ t.before.state.proposals[id]? = some p ∧
    t.after.state.armedAt? id = some eta ∧ eta ≤ now ∧ p.tally.against < p.tally.inFavor ∧
    t.before.state.parameters.quorumThreshold.val ≤
      p.tally.inFavor.val + p.tally.against.val + p.tally.abstain.val

/-- **A turn is quiet or carries out one action.** -/
theorem quiet_or_carriesOut (t : Turn) (hr : t.before.state.Registered) :
    Engine.Quiet t.before t.after ∨
      ∃ id p now eta, Engine.CarriesOut t.before t.call t.after id p now eta := by
  rcases t.answered_or_refused with ⟨answer, -, ha⟩ | ⟨f, -, hkept, -⟩
  · exact ha.quiet_or_carriesOut hr
  · rw [hkept]
    exact .inl ⟨rfl, fun _ => rfl, fun _ => rfl⟩

/-- A quiet turn invokes nothing. -/
theorem invokedFor_of_quiet (h : Engine.Quiet t.before t.after) (id : ProposalId) :
    t.invokedFor id = [] := by
  have hnone : t.invoked = [] := by
    rw [invoked, h.invocations, List.drop_length]
  unfold invokedFor
  split
  · rw [hnone, ite_self]
  · rfl

/-- A quiet turn leaves what a proposal should have come to. -/
theorem carriedOut_of_quiet (hr : t.before.state.Registered)
    (h : Engine.Quiet t.before t.after) (id : ProposalId) :
    t.after.state.carriedOut id = t.before.state.carriedOut id := by
  rcases hfound : t.before.state.proposals[id]? with _ | p
  · have hno : t.before.state.hasExecuted id = false := by
      rw [State.hasExecuted, hfound, Option.any_none]
    rw [State.carriedOut_eq_nil hno, State.carriedOut_eq_nil ((h.executed id).trans hno)]
  · have hchanges := t.changes hr id
    rw [hfound] at hchanges
    obtain ⟨p', hfound', -, hdraft, -⟩ := hchanges.fixed
    rw [State.carriedOut_eq_of_some hfound, State.carriedOut_eq_of_some hfound', h.executed,
      Proposal.action, Proposal.action, hdraft]

/-- Carrying out an action is an execution: its proposal was due, with a majority and the exact
quorum. -/
theorem executes_of_carriesOut
    (h : Engine.CarriesOut t.before t.call t.after id p now eta) : t.Executes id := by
  have hpassed := h.due.passed
  refine ⟨p, now, eta, h.call, h.found, ?_, h.due.reached, hpassed.majority, hpassed.quorum_exact⟩
  rw [State.armedAt?, h.noted, getElem?_insert_proposal, if_pos rfl, Option.bind_some]

/-- **Nothing takes effect but by carrying out an action.** -/
theorem executes_of_effect (t : Turn) (hr : t.before.state.Registered)
    (effect : t.invoked ≠ [] ∨ t.before.state.initialized = true ∧
      t.after.state.parameters ≠ t.before.state.parameters) : ∃ id, t.Executes id := by
  rcases t.quiet_or_carriesOut hr with hquiet | ⟨id, p, now, eta, hcarries⟩
  · rcases effect with hinvoked | ⟨hinit, hchanged⟩
    · rw [invoked, hquiet.invocations, List.drop_length] at hinvoked
      exact absurd rfl hinvoked
    · exact absurd (hquiet.parameters hinit) hchanged
  · exact ⟨id, executes_of_carriesOut hcarries⟩

/-- Only carrying out its action marks a proposal as executed. -/
theorem executes_of_hasExecuted (t : Turn) (hr : t.before.state.Registered)
    (effect : t.after.state.hasExecuted id ≠ t.before.state.hasExecuted id) : t.Executes id := by
  rcases t.quiet_or_carriesOut hr with hquiet | ⟨i, p, now, eta, hcarries⟩
  · exact absurd (hquiet.executed id) effect
  · by_cases hid : id = i
    · subst hid
      exact executes_of_carriesOut hcarries
    · refine absurd ?_ effect
      rw [State.hasExecuted, State.hasExecuted, hcarries.noted, getElem?_insert_proposal,
        if_neg hid]

/-- **A turn adds to what a proposal should have come to exactly what it invokes for it.** What is
due was not executed before, so nothing was invoked for it yet. -/
theorem carriedOut_after (t : Turn) (hr : t.before.state.Registered) (id : ProposalId) :
    t.after.state.carriedOut id = t.before.state.carriedOut id ++ t.invokedFor id := by
  rcases t.quiet_or_carriesOut hr with hquiet | ⟨i, p, now, eta, hcarries⟩
  · rw [carriedOut_of_quiet hr hquiet, invokedFor_of_quiet hquiet, List.append_nil]
  · unfold invokedFor
    rw [hcarries.call]
    by_cases hid : i = id
    · subst hid
      have hno : t.before.state.hasExecuted i = false := by
        rw [State.hasExecuted, hcarries.found, Option.any_some]
        exact hcarries.due.passed.not_executed
      have hnew : t.invoked = p.action := by
        rw [invoked, hcarries.invocations, List.drop_left]
      rw [State.carriedOut_eq_nil hno, State.carriedOut, hcarries.noted, getElem?_insert_proposal,
        if_pos rfl]
      simp only [if_true, List.nil_append, hnew]
      rfl
    · show _ = _ ++ if i = id then t.invoked else []
      rw [if_neg hid, List.append_nil, State.carriedOut, State.carriedOut, hcarries.noted,
        getElem?_insert_proposal, if_neg (Ne.symm hid)]

/-- **The earliest time of execution is set once**, when a call arms a proposal that has succeeded,
or carries it out at once. A queued proposal keeps its time; without a delay the time is set on the
way. -/
theorem armedAt?_after (t : Turn) (hr : t.before.state.Registered) (id : ProposalId) :
    t.after.state.armedAt? id = t.before.state.armedAt? id ∨
      ∃ p now eta, t.call = .execute id now ∧ t.before.state.proposals[id]? = some p ∧
        p.phase now t.before.state.parameters = .succeeded ∧
        t.after.state.armedAt? id = some eta ∧
        eta.val = now.val + t.before.state.parameters.executionDelay.val := by
  have hchanges := t.changes hr id
  unfold State.armedAt?
  generalize t.before.state.proposals[id]? = o at *
  generalize t.after.state.proposals[id]? = o' at *
  generalize t.call = c at *
  cases hchanges with
  | kept | created | canceled | voted => exact .inl rfl
  | armed succeeded delayed => exact .inr ⟨_, _, _, rfl, rfl, succeeded, rfl, delayed⟩
  | executed due =>
    cases due with
    | armed queued armed => exact .inl armed.symm
    | undelayed succeeded none => exact .inr ⟨_, _, _, rfl, rfl, succeeded, rfl, by rw [none]; rfl⟩

end Turn

namespace Engine

variable {id : ProposalId} {p : Proposal} {now eta : Timestamp}

/-- **Over a run, what was invoked for a proposal is what it should have come to.** -/
theorem invokedFor_run (calls : List (Host × Call)) (id : ProposalId) :
    (trace {} calls).flatMap (Turn.invokedFor id) = (run {} calls).state.carriedOut id := by
  refine (trace_induction (P := fun turns e => e.state.Registered ∧
    turns.flatMap (Turn.invokedFor id) = e.state.carriedOut id) ⟨State.registered_empty, ?_⟩
    (fun turns t ⟨hr, h⟩ => ⟨Turn.registered_after hr, ?_⟩) calls).2
  · simp [State.carriedOut]
  · rw [List.flatMap_append, h, List.flatMap_singleton, t.carriedOut_after hr]

/-- **Over a run, a proposal is armed at most once.** A proposal that has succeeded is not armed, so
none of the earlier turns armed it. -/
theorem rearms_run (calls : List (Host × Call)) (id : ProposalId) :
    ((trace {} calls).filter (Turn.rearms id)).length =
      if ((run {} calls).state.armedAt? id).isSome then 1 else 0 := by
  refine length_filter_trace (fun s => (s.armedAt? id).isSome) ?_ (fun t hr => ?_) calls
  · simp [State.armedAt?]
  · rcases t.armedAt?_after hr id with hkept | ⟨p, now, eta, -, hfound, hphase, hset, -⟩
    · exact .inl ⟨by simp [Turn.rearms, hkept], by rw [hkept]⟩
    · have hnot : t.before.state.armedAt? id = none := by
        rw [State.armedAt?, hfound, Option.bind_some]
        exact (Proposal.phase_eq_succeeded_iff.1 hphase).2
      exact .inr ⟨by simp [Turn.rearms, hset, hnot], by rw [hnot]; rfl, by rw [hset]; rfl⟩

/-- **Over a run, every proposal was created by one of its calls**, with the draft that it has. -/
theorem created_run (calls : List (Host × Call))
    (found : (run {} calls).state.proposals[id]? = some p) :
    ∃ t ∈ trace {} calls, ∃ proposer now,
      t.call = .create proposer p.toDraft now ∧ t.answer = .ok (.created id) := by
  refine (trace_induction (P := fun turns e => e.state.Registered ∧
    ∀ p, e.state.proposals[id]? = some p → ∃ t ∈ turns, ∃ proposer now,
      t.call = .create proposer p.toDraft now ∧ t.answer = .ok (.created id))
    ⟨State.registered_empty, ?_⟩ (fun turns t ⟨hr, h⟩ => ⟨Turn.registered_after hr, ?_⟩) calls).2 p
      found
  · intro p found
    simp at found
  · intro p found
    rcases hbefore : t.before.state.proposals[id]? with _ | q
    · rcases t.answered_or_refused with ⟨answer, hanswer, ha⟩ | ⟨f, -, hkept, -⟩
      · obtain ⟨proposer, now, hcall, rfl⟩ := ha.created hr hbefore found
        exact ⟨t, by simp, proposer, now, hcall, hanswer⟩
      · rw [hkept, hbefore] at found
        cases found
    · have hchanges := t.changes hr id
      rw [hbefore, found] at hchanges
      obtain ⟨p', hp', -, hdraft, -⟩ := hchanges.fixed
      cases hp'
      obtain ⟨t', ht', hcreate⟩ := h q hbefore
      rw [hdraft]
      exact ⟨t', List.mem_append_left _ ht', hcreate⟩

/-- A call for the execution of a proposal that is armed but not due waits, and nothing changes. -/
theorem Reachable.execute_early {e : Engine} (h : e.Reachable)
    (found : e.state.proposals[id]? = some p) (queued : p.phase now e.state.parameters = .queued)
    (armed : p.armedAt = some eta) (early : now < eta) (host : Host) :
    (call host (.execute id now)).perform e = (.ok (.outcome (.waiting eta)), e) := by
  have initialized := h.registered.initialized found
  have hstep : Timelock.nextStep p now e.state.parameters = .ok (.wait eta) :=
    Timelock.nextStep_eq_ok_iff.2 ⟨queued, armed, early⟩
  have hexecute : (execute host id now).perform e = (.ok (.waiting eta), e) := by
    unfold execute
    simp only [Procedure.perform_bind, Procedure.perform_get, Procedure.perform_check,
      State.checkInitialized_eq_ok_iff.2 initialized, State.proposal_eq_ok_iff.2 found, hstep,
      Procedure.perform_pure]
  simp only [call, Procedure.perform_map, hexecute, Except.map]

/-- **The timelock, over any run.** For every proposal: its action was carried out once if it was
executed and never otherwise, as it was drafted; it was armed at most once, after its window and
one delay ahead; its action took effect only in a call made when it was due, with the vote won and
the quorum met; and until then a call for its execution waits. -/
theorem timelock (calls : List (Host × Call)) (id : ProposalId) :
    (∀ p, (run {} calls).state.proposals[id]? = some p →
      (trace {} calls).flatMap (Turn.invokedFor id) =
        (match p.target with
        | .external target => if p.executed then [⟨target, p.payload, p.value⟩] else []
        | .parameterStore => []) ∧
      ∃ t ∈ trace {} calls, ∃ proposer now,
        t.call = .create proposer p.toDraft now ∧ t.answer = .ok (.created id)) ∧
    (((trace {} calls).filter (Turn.rearms id)).length ≤ 1 ∧
      ∀ t ∈ trace {} calls, t.rearms id = true → ∃ p now eta, t.call = .execute id now ∧
        t.before.state.proposals[id]? = some p ∧ p.armedAt = none ∧ p.endTime < now ∧
        t.after.state.armedAt? id = some eta ∧
        eta.val = now.val + t.before.state.parameters.executionDelay.val) ∧
    (∀ t ∈ trace {} calls,
      (t.after.state.hasExecuted id ≠ t.before.state.hasExecuted id → t.Executes id) ∧
      (t.invoked ≠ [] ∨ t.before.state.initialized = true ∧
        t.after.state.parameters ≠ t.before.state.parameters → ∃ i, t.Executes i)) ∧
    ∀ p now eta host, (run {} calls).state.proposals[id]? = some p →
      p.phase now (run {} calls).state.parameters = .queued → p.armedAt = some eta → now < eta →
      (call host (.execute id now)).perform (run {} calls) =
        (.ok (.outcome (.waiting eta)), run {} calls) := by
  refine ⟨fun p found => ⟨?_, created_run calls found⟩, ⟨?_, fun t ht hrearms => ?_⟩,
    fun t ht => ?_, fun p now eta host found queued armed early => ?_⟩
  · rw [invokedFor_run, State.carriedOut, found]
    simp only [Proposal.action]
    rcases p.target with _ | target
    · exact ite_self _
    · rfl
  · rw [rearms_run]
    split <;> omega
  · have hr := (reachable_of_mem_trace (reachable_run []) ht).registered
    rcases t.armedAt?_after hr id with hkept | ⟨p, now, eta, hcall, hfound, hphase, hset, hdelay⟩
    · simp [Turn.rearms, hkept] at hrearms
    · obtain ⟨hpassed, hnot⟩ := Proposal.phase_eq_succeeded_iff.1 hphase
      exact ⟨p, now, eta, hcall, hfound, hnot, hpassed.closed, hset, hdelay⟩
  · have hr := (reachable_of_mem_trace (reachable_run []) ht).registered
    exact ⟨t.executes_of_hasExecuted hr, t.executes_of_effect hr⟩
  · exact (reachable_run calls).execute_early found queued armed early host

/-- Two calls too early and two in time carry out an action once. -/
theorem timelock_of_four_executions :
    let alice : Account := ⟨"civ_alice", by decide⟩
    let foundation : Account := ⟨"civ_foundation", by decide⟩
    let host := Rehearsal.host { owner := foundation }
    let calls : List (Host × Call) := [
      (host, .setUp foundation { votingDelay := .zero, executionDelay := ⟨10, by decide⟩ }),
      (host, .recordBalance alice ⟨5, by decide⟩ ⟨⟨1, by decide⟩⟩),
      (host, .create alice ⟨"raise", "", .external foundation, [1], .zero⟩ ⟨⟨2, by decide⟩⟩),
      (host, .vote alice .first .inFavor "" ⟨⟨2, by decide⟩⟩),
      (host, .execute .first ⟨⟨604803, by decide⟩⟩),
      (host, .execute .first ⟨⟨604804, by decide⟩⟩),
      (host, .execute .first ⟨⟨604813, by decide⟩⟩),
      (host, .execute .first ⟨⟨604814, by decide⟩⟩)]
    (trace {} calls).flatMap (Turn.invokedFor .first) = [⟨foundation, [1], .zero⟩] := by
  intro alice foundation host calls
  have hrecord : (run {} calls).state.proposals[ProposalId.first]?.map
      (fun p => (p.target, p.executed, p.payload, p.value)) =
        some (.external foundation, true, [1], .zero) := by
    decide +kernel
  obtain ⟨p, found, hp⟩ := Option.map_eq_some_iff.1 hrecord
  obtain ⟨htarget, hexecuted, hpayload, hvalue⟩ := by simpa only [Prod.mk.injEq] using hp
  rw [((timelock calls .first).1 p found).1, htarget]
  simp only
  rw [hexecuted, hpayload, hvalue, if_pos rfl]

end Engine
end TokenGovernance
