/-
# The event log is complete

What the engine announces can be read without the engine (`View`), and what is read is what the
engine knows. A call announces exactly what it wrote (`Engine.Answered.announces`): most calls one
event or none, the execution of a proposal up to three. The one call that writes something and
announces nothing of it is the one that gives the engine its parameters, so these must be known to
the reader. Then the log tells the state after any run (`Engine.events_complete`).
-/

import TokenGovernance.Host.Rehearsal
import TokenGovernance.Proofs.Backing
import TokenGovernance.Proofs.Engine.Amendments
import TokenGovernance.Proofs.EventLog

namespace TokenGovernance

namespace Proposal

/-- What is announced of a proposal as it is stored. -/
def outline (p : Proposal) : Outline where
  id := p.id
  proposer := p.proposer
  target := p.target
  contentHash := p.contentHash
  startTime := p.startTime
  endTime := p.endTime
  canceled := p.canceled
  armedAt := p.armedAt
  executed := p.executed
  weight side := (p.tally.column side).val

/-- A new proposal is outlined by what is announced of its creation: nothing has happened to it, and
no side has any weight. -/
theorem outline_submitted (draft : Draft) (id : ProposalId) (proposer : Account)
    (now startTime endTime : Timestamp) :
    (submitted draft id proposer now startTime endTime).outline =
      { id, proposer, target := draft.target, contentHash := draft.contentHash, startTime,
        endTime } := by
  unfold outline submitted
  congr 1
  funext side
  cases side <;> rfl

/-- A vote that is counted adds to the outline what is announced of it. -/
theorem outline_count {p : Proposal} {support : Support} {weight : Amount} {tally : Tally}
    (counted : p.tally.cast support weight = .ok tally) :
    p.outline.count support weight = { p with tally }.outline := by
  unfold outline Outline.count
  congr 1
  funext side
  exact (Tally.column_of_cast counted side).symm

end Proposal

/-- What is announced of a vote as it is recorded. -/
def Vote.ballot (v : Vote) : Ballot := ⟨v.support, v.weight, v.reason⟩

namespace State

/-- What can be announced of a state. -/
def view (s : State) : View where
  parameters := s.parameters
  proposals id := s.proposals[id]?.map Proposal.outline
  votes id voter := (s.votes.vote? id voter).map Vote.ballot
  delegate := s.delegation.currentDelegate

variable {s : State} {id : ProposalId} {p p' : Proposal}

/-- Before any call nobody has proposed, voted or delegated, so the view is the one before any
event. -/
theorem view_empty : ({} : State).view = View.start {} := rfl

/-- A proposal that is stored shows as its outline. -/
theorem view_proposals (found : s.proposals[id]? = some p) :
    s.view.proposals id = some p.outline := by
  show s.proposals[id]?.map _ = _
  rw [found, Option.map_some]

/-- A record that is replaced changes one outline. -/
theorem view_replace (found : s.proposals[id]? = some p) {f : Outline → Outline}
    (hf : f p.outline = p'.outline) :
    s.view.revise id f = { s with proposals := s.proposals.insert id p' }.view := by
  unfold view View.revise
  congr 1
  funext i
  rw [getElem?_insert_proposal]
  split
  · rename_i h
    subst h
    simp only [found, Option.map_some, hf]
  · rfl

/-- A record that is added adds one outline. -/
theorem view_create (numbered : p.id = id) :
    s.view.submit p.outline = { s with proposals := s.proposals.insert id p }.view := by
  unfold view View.submit
  congr 1
  funext i
  rw [getElem?_insert_proposal]
  show (if i = p.id then _ else _) = _
  rw [numbered]
  split <;> rfl

/-- A vote that is recorded adds one vote. -/
theorem view_put (s : State) (id : ProposalId) (voter : Account) (vote : Vote) :
    s.view.record id voter vote.ballot = { s with votes := s.votes.put id voter vote }.view := by
  unfold view View.record
  congr 1
  funext i a
  rw [VoteBook.vote?_put]
  split <;> rfl

/-- The directory is seen by the delegates that it tells. -/
theorem view_delegation (s : State) {delegation : Directory}
    (h : ∀ a, delegation.currentDelegate a = s.delegation.currentDelegate a) (held : Ledger) :
    { s with held, delegation }.view = s.view := by
  unfold view
  congr 1
  exact funext h

/-- A change of delegate changes one delegate. -/
theorem view_redelegated (s : State) (delegator target : Account) (balance : Amount)
    (now : Timestamp) (held : Ledger) :
    s.view.redelegate delegator target =
      { s with
        held, delegation := s.delegation.redelegated delegator target balance now }.view := by
  unfold view View.redelegate
  congr 1
  funext a
  split
  · rename_i ha
    rw [ha, Directory.currentDelegate_redelegated_self]
  · rename_i ha
    exact (Directory.currentDelegate_redelegated_of_ne ha ..).symm

/-- A state in which the record of a proposal is replaced by itself. -/
theorem eq_of_insert_eq (found : s.proposals[id]? = some p)
    (same : s.proposals.insert id p' = s.proposals) : p' = p := by
  have hid := getElem?_insert_proposal s.proposals id id p'
  rw [same, found, if_pos rfl] at hid
  exact (Option.some.inj hid).symm

end State

/-- **What is announced of a proposal that is carried out**: its arming, if it was not armed, and
its execution. -/
theorem View.carriedOut {v : View} {id : ProposalId} {p : Proposal} {now eta : Timestamp}
    {parameters : Parameters} (found : v.proposals id = some p.outline)
    (due : p.Due now parameters eta) :
    v.Consistent (p.arming id eta ++ [.proposalExecuted id]) ∧
      (p.arming id eta ++ [Event.proposalExecuted id]).foldl View.apply v =
        v.revise id ({ · with armedAt := some eta, executed := true }) := by
  have unexecuted : p.outline.executed = false := due.passed.not_executed
  unfold Proposal.arming
  cases due with
  | armed _ armed =>
    rw [armed]
    have isArmed : p.outline.armedAt = some eta := armed
    refine ⟨View.consistent_singleton.2 ⟨_, found, by rw [isArmed, Option.isSome_some],
      unexecuted⟩, View.revise_congr found ?_⟩
    rw [← isArmed]
  | undelayed succeeded =>
    have unarmed := (Proposal.phase_eq_succeeded_iff.1 succeeded).2
    rw [unarmed]
    refine ⟨⟨⟨_, found, unarmed, unexecuted⟩, ⟨{ p.outline with armedAt := some now }, ?_,
      Option.isSome_some, unexecuted⟩, trivial⟩, View.revise_revise ..⟩
    show (if id = id then (v.proposals id).map _ else _) = _
    rw [if_pos rfl, found, Option.map_some]

namespace Engine

variable {host : Host} {e e' : Engine} {c : Call} {answer : Answer} {id : ProposalId}
  {p : Proposal} {now eta : Timestamp}

/-! ### In one call -/

/-- **On the way from one engine to another, `log` is announced**, which tells all that changes. -/
structure Announces (e e' : Engine) (log : List Event) : Prop where
  events : e'.events = e.events ++ log
  consistent : e.state.view.Consistent log
  view : log.foldl View.apply e.state.view = e'.state.view

/-- Where nothing is added to the log, nothing that can be announced has changed. -/
theorem Announces.nil (events : e'.events = e.events) (view : e'.state.view = e.state.view) :
    Announces e e' [] :=
  ⟨events.trans (List.append_nil _).symm, trivial, view.symm⟩

/-- One event is announced when it follows on and tells the change. -/
theorem Announces.single {event : Event} (events : e'.events = e.events ++ [event])
    (follows : e.state.view.Follows event) (view : e.state.view.apply event = e'.state.view) :
    Announces e e' [event] :=
  ⟨events, View.consistent_singleton.2 follows, view⟩

/-- **A call announces what it writes**, except for the first parameters. -/
theorem Answered.announces (h : Answered host e c answer e') (hr : e.state.Registered) :
    (∃ caller parameters, c = .setUp caller parameters ∧ e.state.initialized = false ∧
      e' = { e with state := { e.state with parameters, initialized := true } }) ∨
    (∀ caller parameters, c ≠ .setUp caller parameters) ∧ ∃ log, Announces e e' log := by
  induction h with
  | setUp first => exact .inl ⟨_, _, rfl, first, rfl⟩
  | undelegate _ ih =>
    rcases ih with ⟨_, _, hcall, -⟩ | ⟨-, hlog⟩
    · cases hcall
    · exact .inr ⟨nofun, hlog⟩
  | recordBalance _ carries =>
    exact .inr ⟨nofun, _, .nil rfl (e.state.view_delegation carries.currentDelegate_eq _)⟩
  | moveDelegate _ movable =>
    exact .inr ⟨nofun, _, .single rfl ⟨rfl, movable.changes⟩ (e.state.view_redelegated ..)⟩
  | @create proposer draft now startTime endTime count _ _ _ _ _ next =>
    refine .inr ⟨nofun, _, .single rfl ?_ ?_⟩
    · show e.state.proposals[_]?.map _ = none
      rw [hr.fresh next, Option.map_none]
    · have hcreate := State.view_create (s := e.state)
        (p := .submitted draft ⟨count⟩ proposer now startTime endTime) rfl
      rw [Proposal.outline_submitted] at hcreate
      exact hcreate
  | cancel _ found _ undecided =>
    exact .inr ⟨nofun, _, .single rfl
      ⟨_, State.view_proposals found, Proposal.open_of_phase undecided⟩
      (State.view_replace found rfl)⟩
  | @vote voter id support reason now p _ _ found unvoted active _ counted =>
    let vote : Vote := ⟨support, e.state.votingPowerAt host voter p.snapshotTime, reason, now⟩
    let voted : State := { e.state with votes := e.state.votes.put id voter vote }
    refine .inr ⟨nofun, _, .single rfl ⟨⟨_, State.view_proposals found,
      Proposal.open_of_phase (.inr active)⟩, ?_⟩ ?_⟩
    · show (e.state.votes.vote? _ _).map _ = none
      rw [unvoted, Option.map_none]
    · have hput : e.state.view.record id voter vote.ballot = voted.view :=
        e.state.view_put id voter vote
      exact (congrArg (·.revise id (·.count support vote.weight)) hput).trans
        (State.view_replace (s := voted) found (Proposal.outline_count counted))
  | arm _ found succeeded =>
    obtain ⟨passed, unarmed⟩ := Proposal.phase_eq_succeeded_iff.1 succeeded
    exact .inr ⟨nofun, _, .single rfl ⟨_, State.view_proposals found, unarmed, passed.not_executed⟩
      (State.view_replace found rfl)⟩
  | invoke _ found due =>
    obtain ⟨hconsistent, hview⟩ := View.carriedOut (State.view_proposals found) due
    exact .inr ⟨nofun, _, List.append_assoc .., hconsistent,
      hview.trans (State.view_replace found rfl)⟩
  | @amend id now eta p amendment parameters _ found due _ _ _ applied =>
    have hnext := Amendment.version_of_apply applied
    obtain ⟨hconsistent, hview⟩ := View.carriedOut (v := { e.state.view with parameters })
      (State.view_proposals found) due
    refine .inr ⟨nofun, .parametersUpdated parameters :: _, ?_, ⟨hnext, hconsistent⟩,
      hview.trans (State.view_replace (s := { e.state with parameters }) found rfl)⟩
    simp only [List.append_assoc, List.cons_append, List.nil_append]
  | _ => exact .inr ⟨nofun, _, .nil rfl rfl⟩

/-- A change of delegate is announced with the delegate before and the one after. -/
theorem Answered.mem_delegateChanged {delegator source target : Account}
    (h : Answered host e c answer e')
    (announced : .delegateChanged delegator source target ∈ e'.events.drop e.events.length) :
    source = e.state.delegation.currentDelegate delegator ∧
      target = e'.state.delegation.currentDelegate delegator := by
  induction h with
  | undelegate _ ih => exact ih announced
  | moveDelegate =>
    rw [List.drop_left, List.mem_singleton] at announced
    cases announced
    exact ⟨rfl, (Directory.currentDelegate_redelegated_self ..).symm⟩
  | @invoke id _ _ p =>
    rw [List.append_assoc, List.drop_left] at announced
    unfold Proposal.arming at announced
    split at announced <;> simp at announced
  | amend =>
    rw [List.append_assoc, List.append_assoc, List.drop_left] at announced
    unfold Proposal.arming at announced
    split at announced <;> simp at announced
  | _ => simp at announced

/-- **A call that leaves the state as it was announces nothing.** -/
theorem Answered.silent (h : Answered host e c answer e') (same : e'.state = e.state) :
    e'.events = e.events := by
  induction h with
  | undelegate _ ih => exact ih same
  | @moveDelegate delegator target now _ movable =>
    have hdelegate := congrArg (·.delegation.currentDelegate delegator) same
    rw [Directory.currentDelegate_redelegated_self] at hdelegate
    exact absurd hdelegate.symm movable.changes
  | create _ _ _ _ _ next =>
    have hcount := congrArg (·.proposalCount.val) same
    simp only [next] at hcount
    omega
  | cancel _ found _ undecided =>
    have hp := State.eq_of_insert_eq found (congrArg State.proposals same)
    have hcanceled := congrArg Proposal.canceled hp
    rw [(Proposal.open_of_phase undecided).1] at hcanceled
    cases hcanceled
  | @vote voter id _ _ _ _ _ _ _ unvoted =>
    have hvote := congrArg (·.votes.vote? id voter) same
    simp only [VoteBook.vote?_put, unvoted, and_self, if_true] at hvote
    cases hvote
  | arm _ found succeeded =>
    have hp := State.eq_of_insert_eq found (congrArg State.proposals same)
    have harmed := congrArg Proposal.armedAt hp
    rw [(Proposal.phase_eq_succeeded_iff.1 succeeded).2] at harmed
    cases harmed
  | invoke _ found due =>
    have hp := State.eq_of_insert_eq found (congrArg State.proposals same)
    have hexecuted := congrArg Proposal.executed hp
    rw [due.passed.not_executed] at hexecuted
    cases hexecuted
  | amend _ found due =>
    have hp := State.eq_of_insert_eq found (congrArg State.proposals same)
    have hexecuted := congrArg Proposal.executed hp
    rw [due.passed.not_executed] at hexecuted
    cases hexecuted
  | _ => rfl

end Engine

namespace Turn

variable {t : Turn}

/-- What is announced in a turn. -/
def announced (t : Turn) : List Event := t.after.events.drop t.before.events.length

/-- The parameters that a turn gives the engine. -/
def given? (t : Turn) : Option Parameters :=
  match t.call with
  | .setUp _ parameters => if t.answer.isOk then some parameters else none
  | _ => none

/-- **A turn gives the engine its parameters, or announces what it writes.** -/
theorem announces (t : Turn) (hr : t.before.state.Registered) :
    (∃ parameters, t.given? = some parameters ∧ t.before.state.initialized = false ∧ t.after =
      { t.before with state := { t.before.state with parameters, initialized := true } }) ∨
    t.given? = none ∧ Engine.Announces t.before t.after t.announced := by
  rcases t.answered_or_refused with ⟨answer, hanswer, ha⟩ | ⟨f, hf, hkept, -⟩
  · rcases ha.announces hr with ⟨caller, parameters, hcall, first, hafter⟩ | ⟨hcall, log, hlog⟩
    · refine .inl ⟨parameters, ?_, first, hafter⟩
      rw [given?, hcall, hanswer]
      rfl
    · refine .inr ⟨?_, ?_⟩
      · unfold given?
        split
        · rename_i caller parameters hc
          exact absurd hc (hcall caller parameters)
        · rfl
      · rwa [announced, hlog.events, List.drop_left]
  · refine .inr ⟨?_, ?_⟩
    · unfold given?
      rw [hf]
      split <;> rfl
    · rw [announced, hkept, List.drop_length]
      exact .nil rfl rfl

/-- **A turn that fails or leaves the state as it was announces nothing.** -/
theorem announced_eq_nil (h : t.answer.isOk = false ∨ t.after.state = t.before.state) :
    t.announced = [] := by
  unfold announced
  rcases t.answered_or_refused with ⟨answer, hanswer, ha⟩ | ⟨f, hf, hkept, -⟩
  · rcases h with hfailed | hsame
    · rw [hanswer] at hfailed
      cases hfailed
    · rw [ha.silent hsame, List.drop_length]
  · rw [hkept, List.drop_length]

end Turn

namespace Engine

/-! ### Over a run -/

/-- The parameters that the engine was given in a run, if it was. -/
def givenParameters (turns : List Turn) : Parameters := (turns.findSome? Turn.given?).getD {}

/-- What was announced in a run, read by somebody who knows the parameters given at set-up. -/
structure Tells (turns : List Turn) (e : Engine) : Prop where
  registered : e.state.Registered
  announced : turns.flatMap Turn.announced = e.events
  consistent : (View.start (givenParameters turns)).Consistent e.events
  view : e.events.foldl View.apply (View.start (givenParameters turns)) = e.state.view
  /-- Before set-up the parameters are those of a new engine. -/
  unknown : e.state.initialized = false →
    turns.findSome? Turn.given? = none ∧ e.state.parameters = {}

/-- What is told before set-up is told as well by somebody who knows the parameters to come: they
were not changed yet, so no event announces any. -/
theorem Tells.setUp {turns : List Turn} {t : Turn} {parameters : Parameters}
    (h : Tells turns t.before) (given : t.given? = some parameters)
    (first : t.before.state.initialized = false) (after : t.after =
      { t.before with state := { t.before.state with parameters, initialized := true } }) :
    Tells (turns ++ [t]) t.after := by
  obtain ⟨hnone, hempty⟩ := h.unknown first
  have hbefore : givenParameters turns = {} := by
    rw [givenParameters, hnone, Option.getD_none]
  have hgiven : givenParameters (turns ++ [t]) = parameters := by
    simp [givenParameters, List.findSome?_append, hnone, given]
  obtain ⟨hr, hannounced, hconsistent, hview, -⟩ := h
  rw [hbefore] at hconsistent hview
  have hversions := hconsistent.version?_eq_none (by rw [hview]; exact hempty)
  refine ⟨Turn.registered_after hr, ?_, ?_, ?_, ?_⟩
  · rw [List.flatMap_append, hannounced, List.flatMap_singleton, Turn.announced, after,
      List.drop_length, List.append_nil]
  · rw [hgiven, after]
    exact (View.consistent_with hversions (View.start {}) parameters).2 hconsistent
  · rw [hgiven, after]
    exact (View.foldl_with hversions (View.start {}) parameters).trans
      (congrArg (fun v : View => { v with parameters }) hview)
  · intro hinit
    rw [after] at hinit
    cases hinit

/-- What is told goes on to be told. -/
theorem Tells.announce {turns : List Turn} {t : Turn} (h : Tells turns t.before)
    (none : t.given? = none) (log : Announces t.before t.after t.announced) :
    Tells (turns ++ [t]) t.after := by
  have hgiven : givenParameters (turns ++ [t]) = givenParameters turns := by
    simp [givenParameters, List.findSome?_append, none]
  refine ⟨Turn.registered_after h.registered, ?_, ?_, ?_, fun hafter => ?_⟩
  · rw [List.flatMap_append, h.announced, List.flatMap_singleton, log.events]
  · rw [hgiven, log.events, View.consistent_append, h.view]
    exact ⟨h.consistent, log.consistent⟩
  · rw [hgiven, log.events, List.foldl_append, h.view, log.view]
  · rcases t.governed h.registered with ⟨-, hkeeps⟩ | ⟨_, _, hgives⟩ | ⟨_, _, _, hamends⟩
    · obtain ⟨hnone, hempty⟩ := h.unknown (hkeeps.initialized ▸ hafter)
      refine ⟨?_, hkeeps.parameters.trans hempty⟩
      simp [List.findSome?_append, hnone, none]
    · rw [hgives.given] at hafter
      cases hafter
    · have hinit := h.registered.initialized hamends.found
      rw [← hamends.initialized, hafter] at hinit
      cases hinit

/-- **What a run announces tells what it leads to.** -/
theorem tells_run (calls : List (Host × Call)) : Tells (trace {} calls) (run {} calls) := by
  refine trace_induction (P := Tells) ?_ (fun turns t h => ?_) calls
  · exact ⟨State.registered_empty, rfl, trivial, State.view_empty.symm, fun _ => ⟨rfl, rfl⟩⟩
  · rcases t.announces h.registered with ⟨parameters, hgiven, first, hafter⟩ | ⟨hnone, hlog⟩
    · exact h.setUp hgiven first hafter
    · exact h.announce hnone hlog

/-- An executed proposal was armed. -/
theorem Reachable.armed_of_executed {e : Engine} (h : e.Reachable) {id : ProposalId}
    {p : Proposal} (found : e.state.proposals[id]? = some p) (executed : p.executed = true) :
    ∃ eta, p.armedAt = some eta := by
  refine h.proposal_invariant (P := fun p => p.executed = true → ∃ eta, p.armedAt = some eta)
    ?_ ?_ found executed
  · exact fun _ _ _ _ _ _ hexecuted => absurd hexecuted Bool.false_ne_true
  · intro host e id c p p' hchanges hp hexecuted
    cases hchanges with
    | kept | canceled | voted => exact hp hexecuted
    | armed | executed => exact ⟨_, rfl⟩

/-- **The event log is a complete record.** Whatever is called, the events, entered one after the
other by somebody who knows the parameters given at set-up, tell all proposals, all votes, all
delegates and the parameters. A change of delegate names the delegate just before it; an executed
proposal was announced to be armed, for the time that it was armed for, and then to be executed,
once each; the versions of the parameters go up one by one; and a turn that fails or changes nothing
announces nothing. -/
theorem events_complete (calls : List (Host × Call)) :
    let turns := trace {} calls
    let e := run {} calls
    turns.flatMap Turn.announced = e.events ∧
    e.events.foldl View.apply (View.start (givenParameters turns)) = e.state.view ∧
    (∀ t ∈ turns, ∀ delegator source target,
      .delegateChanged delegator source target ∈ t.announced →
      source = t.before.state.delegation.currentDelegate delegator ∧
        target = t.after.state.delegation.currentDelegate delegator) ∧
    (∀ (id : ProposalId) (p : Proposal), e.state.proposals[id]? = some p → p.executed = true →
      ∃ eta, p.armedAt = some eta ∧
        e.events.filter (·.isMilestone id) = [.proposalQueued id eta, .proposalExecuted id]) ∧
    (∃ n, e.events.filterMap Event.version? =
      List.range' ((givenParameters turns).version.val + 1) n) ∧
    ∀ t ∈ turns, t.answer.isOk = false ∨ t.after.state = t.before.state → t.announced = [] := by
  intro turns e
  have htells := tells_run calls
  refine ⟨htells.announced, htells.view, fun t _ delegator source target hm => ?_,
    fun id p found executed => ?_, ?_, fun t _ h => Turn.announced_eq_nil h⟩
  · rcases t.answered_or_refused with ⟨answer, -, ha⟩ | ⟨f, -, hkept, -⟩
    · exact ha.mem_delegateChanged hm
    · rw [Turn.announced, hkept, List.drop_length] at hm
      cases hm
  · obtain ⟨eta, armed⟩ := (reachable_run calls).armed_of_executed found executed
    have hmilestones := htells.consistent.milestones id
    rw [htells.view] at hmilestones
    refine ⟨eta, armed, hmilestones.symm.trans ?_⟩
    rw [View.milestones, State.view_proposals found, Option.elim_some, Outline.milestones]
    show p.armedAt.toList.map _ ++ (if p.executed = true then _ else _) = _
    rw [armed, executed]
    rfl
  · obtain ⟨n, hversions, -⟩ := htells.consistent.versions
    exact ⟨n, hversions⟩

/-- An amendment that is carried out at once, and an action that is armed, awaited and then carried
out under the delay that was amended. -/
theorem events_complete_of_delay :
    let alice : Account := ⟨"civ_alice", by decide⟩
    let foundation : Account := ⟨"civ_foundation", by decide⟩
    let host := Rehearsal.host { owner := foundation }
    let payload := Binary.Codec.amendment.write (.set .executionDelay ⟨10, by decide⟩)
    let second : ProposalId := ⟨⟨2, by decide⟩⟩
    let calls : List (Host × Call) := [
      (host, .setUp foundation
        { votingDelay := .zero, executionDelay := .zero, version := ⟨3, by decide⟩ }),
      (host, .recordBalance alice ⟨5, by decide⟩ ⟨⟨1, by decide⟩⟩),
      (host, .create alice ⟨"slow down", "", .parameterStore, payload, .zero⟩ ⟨⟨2, by decide⟩⟩),
      (host, .vote alice .first .inFavor "" ⟨⟨2, by decide⟩⟩),
      (host, .execute .first ⟨⟨604803, by decide⟩⟩),
      (host, .create alice ⟨"raise", "", .external foundation, [1], .zero⟩ ⟨⟨604804, by decide⟩⟩),
      (host, .vote alice second .inFavor "" ⟨⟨604804, by decide⟩⟩),
      (host, .execute second ⟨⟨1209605, by decide⟩⟩),
      (host, .execute second ⟨⟨1209606, by decide⟩⟩),
      (host, .execute second ⟨⟨1209615, by decide⟩⟩)]
    (run {} calls).events.filter (·.isMilestone .first) =
      [.proposalQueued .first ⟨⟨604803, by decide⟩⟩, .proposalExecuted .first] ∧
    (run {} calls).events.filter (·.isMilestone second) =
      [.proposalQueued second ⟨⟨1209615, by decide⟩⟩, .proposalExecuted second] ∧
    (∃ n, (run {} calls).events.filterMap Event.version? = List.range' 4 n) ∧
    let told := (run {} calls).events.foldl View.apply
      (View.start (givenParameters (trace {} calls)))
    (told.proposals second).map (·.weight .inFavor) = some 5 := by
  intro alice foundation host payload second calls
  obtain ⟨-, hview, -, hmilestones, hversions, -⟩ := events_complete calls
  have hfirst : (run {} calls).state.proposals[ProposalId.first]?.map
      (fun p => (p.executed, p.armedAt)) = some (true, some ⟨⟨604803, by decide⟩⟩) := by
    decide +kernel
  have hsecond : (run {} calls).state.proposals[second]?.map
      (fun p => (p.executed, p.armedAt)) = some (true, some ⟨⟨1209615, by decide⟩⟩) := by
    decide +kernel
  have hgiven : (givenParameters (trace {} calls)).version.val = 3 := by decide +kernel
  have hweight : ((run {} calls).state.view.proposals second).map (·.weight .inFavor) =
      some 5 := by
    decide +kernel
  have milestones_of {id : ProposalId} {time : Timestamp}
      (h : (run {} calls).state.proposals[id]?.map (fun p => (p.executed, p.armedAt)) =
        some (true, some time)) :
      (run {} calls).events.filter (·.isMilestone id) =
        [.proposalQueued id time, .proposalExecuted id] := by
    obtain ⟨p, found, hp⟩ := Option.map_eq_some_iff.1 h
    obtain ⟨hexecuted, harmed⟩ := Prod.mk.inj hp
    obtain ⟨eta, heta, htold⟩ := hmilestones id p found hexecuted
    rw [harmed, Option.some.injEq] at heta
    rw [htold, ← heta]
  rw [hgiven] at hversions
  have hread := congrArg (fun v : View => (v.proposals second).map (·.weight .inFavor)) hview
  exact ⟨milestones_of hfirst, milestones_of hsecond, hversions, hread.trans hweight⟩

end Engine
end TokenGovernance
