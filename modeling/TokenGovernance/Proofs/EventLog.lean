/-
# Reading the event log

Somebody who never sees the engine, but is told what parameters it was given and what it announced
since, keeps a `View`: an outline of every proposal, the votes, the delegate of every account and
the parameters. Each event is entered where it says (`View.apply`), and follows on from what was
entered before (`View.Follows`):

| event | entered as | follows on |
| --- | --- | --- |
| `proposalCreated` | a new outline | an unused number |
| `proposalCanceled` | the mark | a proposal neither canceled nor executed |
| `proposalQueued` | the earliest time of execution | a proposal neither armed nor executed |
| `proposalExecuted` | the mark | an armed proposal, not executed |
| `voteCast` | the vote, and its weight on its side | an open proposal without a vote of the voter |
| `delegateChanged` | the delegate | the delegate before, who is another one |
| `parametersUpdated` | the parameters | the version before, by one |

Of a log in which all events follow on, two orders can be read off: how a proposal came to be
executed (`View.Consistent.milestones`), and the versions of the parameters
(`View.Consistent.versions`).
-/

import TokenGovernance.Host.Basic

namespace TokenGovernance

namespace Event

/-- Whether an event is about the execution of a proposal. -/
def isMilestone (id : ProposalId) : Event → Bool
  | .proposalQueued i _ | .proposalExecuted i => i = id
  | _ => false

/-- The version of the parameters that an event announces. -/
def version? : Event → Option Nat
  | .parametersUpdated parameters => some parameters.version.val
  | _ => none

end Event

/-- What is announced of a proposal. -/
structure Outline where
  id : ProposalId
  proposer : Account
  target : Target
  contentHash : Digest
  startTime : Timestamp
  endTime : Timestamp
  canceled : Bool := false
  armedAt : Option Timestamp := none
  executed : Bool := false
  /-- The sum of the weights of the votes on each side. -/
  weight : Support → Nat := fun _ => 0

/-- What is announced of a vote. -/
structure Ballot where
  support : Support
  weight : Amount
  reason : String
deriving DecidableEq

/-- What the events tell of the engine. -/
structure View where
  parameters : Parameters
  proposals : ProposalId → Option Outline
  votes : ProposalId → Account → Option Ballot
  delegate : Account → Account

namespace Outline

/-- The outline with a vote more. -/
def count (o : Outline) (support : Support) (weight : Amount) : Outline :=
  { o with weight := fun side => o.weight side + if support = side then weight.val else 0 }

/-- What was announced of the execution of a proposal with this outline. -/
def milestones (o : Outline) (id : ProposalId) : List Event :=
  o.armedAt.toList.map (.proposalQueued id) ++ if o.executed then [.proposalExecuted id] else []

end Outline

namespace View

variable {v : View} {event : Event} {log later : List Event} {id : ProposalId} {o : Outline}

/-- The view before any event. -/
def start (parameters : Parameters) : View where
  parameters
  proposals _ := none
  votes _ _ := none
  delegate a := a

/-- Adds the outline of a proposal. -/
def submit (v : View) (o : Outline) : View :=
  { v with proposals := fun i => if i = o.id then some o else v.proposals i }

/-- Changes the outline of a proposal. -/
def revise (v : View) (id : ProposalId) (f : Outline → Outline) : View :=
  { v with proposals := fun i => if i = id then (v.proposals i).map f else v.proposals i }

/-- Adds a vote. -/
def record (v : View) (id : ProposalId) (voter : Account) (ballot : Ballot) : View :=
  { v with votes := fun i a => if i = id ∧ a = voter then some ballot else v.votes i a }

/-- Changes the delegate of an account. -/
def redelegate (v : View) (delegator target : Account) : View :=
  { v with delegate := fun a => if a = delegator then target else v.delegate a }

/-- Enters an event. -/
def apply (v : View) : Event → View
  | .proposalCreated id proposer target contentHash startTime endTime =>
    v.submit { id, proposer, target, contentHash, startTime, endTime }
  | .proposalCanceled id _ => v.revise id ({ · with canceled := true })
  | .proposalQueued id eta => v.revise id ({ · with armedAt := some eta })
  | .proposalExecuted id => v.revise id ({ · with executed := true })
  | .voteCast id voter support weight reason =>
    (v.record id voter ⟨support, weight, reason⟩).revise id (·.count support weight)
  | .delegateChanged delegator _ target => v.redelegate delegator target
  | .parametersUpdated parameters => { v with parameters }

/-- A proposal that is neither canceled nor executed. -/
def Open (v : View) (id : ProposalId) : Prop :=
  ∃ o, v.proposals id = some o ∧ o.canceled = false ∧ o.executed = false

/-- An event follows on from what was entered before. -/
def Follows (v : View) : Event → Prop
  | .proposalCreated id .. => v.proposals id = none
  | .proposalCanceled id _ => v.Open id
  | .proposalQueued id _ =>
    ∃ o, v.proposals id = some o ∧ o.armedAt = none ∧ o.executed = false
  | .proposalExecuted id =>
    ∃ o, v.proposals id = some o ∧ o.armedAt.isSome = true ∧ o.executed = false
  | .voteCast id voter .. => v.Open id ∧ v.votes id voter = none
  | .delegateChanged delegator source target => source = v.delegate delegator ∧ source ≠ target
  | .parametersUpdated parameters => parameters.version.val = v.parameters.version.val + 1

/-- **Every event follows on from the ones before it.** -/
def Consistent (v : View) : List Event → Prop
  | [] => True
  | event :: log => v.Follows event ∧ (v.apply event).Consistent log

/-- What was announced of the execution of a proposal. -/
def milestones (v : View) (id : ProposalId) : List Event :=
  (v.proposals id).elim [] (·.milestones id)

/-- A log follows on when its beginning does, and its end from what the beginning made of the
view. -/
theorem consistent_append :
    v.Consistent (log ++ later) ↔ v.Consistent log ∧ (log.foldl apply v).Consistent later := by
  induction log generalizing v with
  | nil => simp [Consistent]
  | cons event log ih => simp only [List.cons_append, Consistent, ih, List.foldl_cons, and_assoc]

/-- A log of one event follows on when the event does. -/
theorem consistent_singleton : v.Consistent [event] ↔ v.Follows event := by
  simp [Consistent]

/-- Two changes of an outline are one. -/
theorem revise_revise (v : View) (id : ProposalId) (f g : Outline → Outline) :
    (v.revise id f).revise id g = v.revise id (g ∘ f) := by
  unfold revise
  congr 1
  funext i
  by_cases h : i = id <;> simp [h]

/-- Changes that do the same to an outline are the same change. -/
theorem revise_congr (found : v.proposals id = some o) {f g : Outline → Outline}
    (same : f o = g o) : v.revise id f = v.revise id g := by
  unfold revise
  congr 1
  funext i
  split
  · rename_i h
    rw [h, found, Option.map_some, Option.map_some, same]
  · rfl

/-! ### Before the parameters are known -/

/-- An event that announces no parameters is entered alike whatever they are. -/
theorem apply_with (h : event.version? = none) (v : View) (parameters : Parameters) :
    { v with parameters }.apply event = { v.apply event with parameters } := by
  cases event with
  | parametersUpdated => cases h
  | _ => rfl

/-- Whether an event that announces no parameters follows on does not depend on them. -/
theorem follows_with (h : event.version? = none) (v : View) (parameters : Parameters) :
    { v with parameters }.Follows event ↔ v.Follows event := by
  cases event with
  | parametersUpdated => cases h
  | _ => exact Iff.rfl

/-- A log that announces no parameters is read alike whatever they are. -/
theorem foldl_with (h : ∀ event ∈ log, event.version? = none) (v : View)
    (parameters : Parameters) :
    log.foldl apply { v with parameters } = { log.foldl apply v with parameters } := by
  induction log generalizing v with
  | nil => rfl
  | cons event log ih =>
    obtain ⟨hevent, hlog⟩ := List.forall_mem_cons.1 h
    rw [List.foldl_cons, apply_with hevent, ih hlog, List.foldl_cons]

/-- Whether a log that announces no parameters follows on does not depend on them. -/
theorem consistent_with (h : ∀ event ∈ log, event.version? = none) (v : View)
    (parameters : Parameters) : { v with parameters }.Consistent log ↔ v.Consistent log := by
  induction log generalizing v with
  | nil => exact Iff.rfl
  | cons event log ih =>
    obtain ⟨hevent, hlog⟩ := List.forall_mem_cons.1 h
    rw [Consistent, Consistent, follows_with hevent, apply_with hevent, ih hlog]

/-! ### What a consistent log tells -/

/-- A new proposal has no milestones. -/
theorem milestones_submit (new : v.proposals o.id = none) (start : o.milestones o.id = [])
    (id : ProposalId) : (v.submit o).milestones id = v.milestones id := by
  unfold milestones submit
  by_cases h : id = o.id
  · subst h
    simp only [if_true, new, Option.elim_some, Option.elim_none, start]
  · simp only [if_neg h]

/-- What becomes of the milestones of a proposal whose outline is changed. -/
theorem milestones_revise (v : View) (i id : ProposalId) (f : Outline → Outline) :
    (v.revise i f).milestones id =
      if id = i then ((v.proposals id).map f).elim [] (·.milestones id) else v.milestones id := by
  unfold milestones revise
  by_cases h : id = i
  · simp only [if_pos h]
  · simp only [if_neg h]

/-- A change that leaves the arming and the execution alone adds no milestone. -/
theorem milestones_revise_of_same (v : View) (i id : ProposalId) {f : Outline → Outline}
    (same : ∀ o, (f o).milestones id = o.milestones id) :
    (v.revise i f).milestones id = v.milestones id := by
  rw [milestones_revise]
  split
  · rw [milestones]
    rcases v.proposals id with _ | o
    · rfl
    · exact same o
  · rfl

/-- **An event adds itself to the milestones of its proposal**, or nothing. -/
theorem Follows.milestones (h : v.Follows event) (id : ProposalId) :
    (v.apply event).milestones id =
      v.milestones id ++ if event.isMilestone id then [event] else [] := by
  cases event with
  | proposalCreated i proposer target contentHash startTime endTime =>
    let o : Outline := { id := i, proposer, target, contentHash, startTime, endTime }
    exact (milestones_submit (o := o) h rfl id).trans (List.append_nil _).symm
  | proposalQueued i eta =>
    obtain ⟨o, found, unarmed, unexecuted⟩ := h
    show (v.revise i _).milestones id = _
    rw [milestones_revise]
    by_cases hid : id = i
    · subst hid
      simp [View.milestones, found, Outline.milestones, unarmed, unexecuted, Event.isMilestone]
    · simp [hid, Ne.symm hid, Event.isMilestone]
  | proposalExecuted i =>
    obtain ⟨o, found, armed, unexecuted⟩ := h
    show (v.revise i _).milestones id = _
    rw [milestones_revise]
    by_cases hid : id = i
    · subst hid
      simp [View.milestones, found, Outline.milestones, unexecuted, Event.isMilestone]
    · simp [hid, Ne.symm hid, Event.isMilestone]
  | proposalCanceled i =>
    have hsame := v.milestones_revise_of_same i id (f := ({ · with canceled := true }))
      fun _ => rfl
    exact hsame.trans (List.append_nil _).symm
  | voteCast i voter support weight =>
    have hsame := v.milestones_revise_of_same i id (f := (·.count support weight)) fun _ => rfl
    exact hsame.trans (List.append_nil _).symm
  | _ => exact (List.append_nil _).symm

/-- **A log tells the milestones of each proposal in order.** -/
theorem Consistent.milestones (h : v.Consistent log) (id : ProposalId) :
    (log.foldl apply v).milestones id = v.milestones id ++ log.filter (·.isMilestone id) := by
  induction log generalizing v with
  | nil => exact (List.append_nil _).symm
  | cons event log ih =>
    obtain ⟨hfollows, hlog⟩ := h
    rw [List.foldl_cons, ih hlog, hfollows.milestones, List.append_assoc, List.filter_cons]
    split <;> rfl

/-- An event that announces no version leaves the parameters. -/
theorem parameters_apply (h : event.version? = none) (v : View) :
    (v.apply event).parameters = v.parameters := by
  cases event with
  | parametersUpdated => cases h
  | _ => rfl

/-- **The versions that a log announces are consecutive**, up to the version in force. -/
theorem Consistent.versions (h : v.Consistent log) :
    ∃ n, log.filterMap Event.version? = List.range' (v.parameters.version.val + 1) n ∧
      (log.foldl apply v).parameters.version.val = v.parameters.version.val + n := by
  induction log generalizing v with
  | nil => exact ⟨0, rfl, rfl⟩
  | cons event log ih =>
    obtain ⟨hfollows, hlog⟩ := h
    obtain ⟨n, hversions, hlast⟩ := ih hlog
    rcases hevent : event.version? with _ | version
    · rw [parameters_apply hevent] at hversions hlast
      exact ⟨n, by rw [List.filterMap_cons, hevent, hversions], hlast⟩
    · cases event with
      | parametersUpdated parameters =>
        cases hevent
        have hnext : parameters.version.val = v.parameters.version.val + 1 := hfollows
        refine ⟨n + 1, ?_, ?_⟩
        · rw [List.range'_succ, ← hnext]
          exact congrArg (parameters.version.val :: ·) hversions
        · rw [List.foldl_cons, hlast]
          show parameters.version.val + n = _
          omega
      | _ => cases hevent

/-- A log that leaves the version as it was announces no parameters. -/
theorem Consistent.version?_eq_none (h : v.Consistent log)
    (same : (log.foldl apply v).parameters = v.parameters) :
    ∀ event ∈ log, event.version? = none := by
  obtain ⟨n, hversions, hlast⟩ := h.versions
  rw [same] at hlast
  have hn : n = 0 := by omega
  rw [hn, List.range'_zero] at hversions
  exact List.filterMap_eq_nil_iff.1 hversions

end View
end TokenGovernance
