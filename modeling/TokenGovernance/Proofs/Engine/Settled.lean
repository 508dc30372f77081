/-
# Every call is settled

A call leaves the engine as `Engine.Answered` describes, or leaves it alone for a reason that
`Engine.Refused` names (`Engine.call_settled`). The calls are taken one by one: their checks are
read off the definitions in order, and once a write is made the remaining steps are shown to
answer.

The checks that would stand between two writes are foreseen by earlier ones: the order of the
delegator's balances is asked before its delegate changes, the proposal was found before its
tally is replaced, and an amended record was validated before it is put in place.
-/

import Mathlib.Control.Monad.Basic
import TokenGovernance.Host.Rehearsal
import TokenGovernance.Proofs.Amendment
import TokenGovernance.Proofs.Engine.Step

namespace TokenGovernance

namespace State

variable {s : State} {id : ProposalId} {p : Proposal} {f : Fault}

/-- The check for set-up passes once the engine is set up. -/
theorem checkInitialized_eq_ok_iff : s.checkInitialized = .ok () ↔ s.initialized = true := by
  unfold checkInitialized
  rcases s.initialized <;> simp

/-- The check for set-up refuses before it, and says so. -/
theorem checkInitialized_eq_error_iff :
    s.checkInitialized = .error f ↔ s.initialized = false ∧ f = .notInitialized := by
  unfold checkInitialized
  rcases s.initialized <;> simp [eq_comm]

/-- A proposal is given out when it is stored. -/
theorem proposal_eq_ok_iff : s.proposal id = .ok p ↔ s.proposals[id]? = some p := by
  unfold proposal
  rcases s.proposals[id]? with _ | q <;> simp

/-- A number without a proposal is refused by name. -/
theorem proposal_eq_error_iff :
    s.proposal id = .error f ↔ s.proposals[id]? = none ∧ f = .proposalNotFound id := by
  unfold proposal
  rcases s.proposals[id]? with _ | q <;> simp [eq_comm]

end State

namespace Engine

variable {host : Host} {e : Engine} {id : ProposalId} {p : Proposal} {now eta : Timestamp}

/-! ### The writes -/

/-- A change of the state is certain. -/
theorem perform_modifyState (f : State → State) (e : Engine) :
    (modifyState f).perform e = (.ok (), { e with state := f e.state }) := rfl

/-- A balance is recorded with certainty once its order was checked. -/
theorem perform_recordHeld {account : Account} (h : (e.state.held.history account).Accepts now)
    (balance : Amount) :
    (recordHeld account balance now).perform e =
      (.ok (), { e with
        state := { e.state with held := e.state.held.put account balance now } }) := by
  unfold recordHeld
  rw [Procedure.perform_bind_ok (Procedure.perform_get e), Ledger.record_of_accepts h]
  rfl

/-- The record of a proposal is replaced with certainty once it was found. -/
theorem perform_updateProposal (found : e.state.proposals[id]? = some p)
    (f : Proposal → Proposal) :
    (updateProposal id f).perform e =
      (.ok (), { e with
        state := { e.state with proposals := e.state.proposals.insert id (f p) } }) := by
  unfold updateProposal
  rw [Procedure.perform_bind_ok (Procedure.perform_get e), State.proposal_eq_ok_iff.2 found]
  rfl

/-! ### The calls on the parameters -/

/-- **Setting up is whole or leaves no trace.** The only write comes after all checks: first time,
owner, sound parameters. -/
theorem setUp_settled (host : Host) (e : Engine) (caller : Account) (parameters : Parameters) :
    (setUp host caller parameters).Settled e
      (fun _ => Answered host e (.setUp caller parameters) .done)
      (Refused host e (.setUp caller parameters)) := by
  unfold setUp
  refine .get (.guard (fun hagain => .setUpTwice hagain) fun hfirst => ?_)
  refine .guard (fun hother => .notOwner (by simpa using hother)) fun howner => ?_
  refine .check (fun f hf => ?_) fun _ hsound => ?_
  · obtain ⟨defect, hd, rfl⟩ := Parameters.validate_eq_error_iff.1 hf
    exact .unsound hd
  · exact .of_ok (Procedure.perform_modify _ e)
      (.setUp (by simpa using hfirst) (by simpa using howner)
        (Parameters.validate_eq_ok_iff.1 hsound))

/-- Setting parameters by hand is always refused, and so leaves no trace. -/
theorem setParameters_settled (host : Host) (e : Engine) (caller : Account) (next : Parameters) :
    (setParameters caller next).Settled e (fun _ _ => False)
      (Refused host e (.setParameters caller next)) :=
  .throw_bind .ungoverned

/-! ### The calls on balances and delegates -/

/-- **Recording a balance is whole or leaves no trace.** The order of the balances is checked first.
The change of the delegate's power makes its own checks, and after it the balances are still as they
were checked. -/
theorem recordBalance_settled (host : Host) (e : Engine) (account : Account) (balance : Amount)
    (now : Timestamp) :
    (recordBalance account balance now).Settled e
      (fun _ => Answered host e (.recordBalance account balance now) .done)
      (Refused host e (.recordBalance account balance now)) := by
  unfold recordBalance
  refine .get (.check (fun f hf => .balanceOrder hf) fun _ horder => ?_)
  rw [Ledger.checkOrder_eq_ok_iff] at horder
  refine .bind ((Directory.balanceChanged_settled ..).within rfl |>.mono (fun _ _ h => h)
    fun f hf => .carry horder hf) ?_
  rintro _ e' ⟨delegation, hcarries, rfl⟩
  have hw := perform_recordHeld
    (e := { e with state := { e.state with delegation } }) horder balance
  exact ⟨_, _, hw, .recordBalance horder hcarries⟩

/-- **Naming a delegate is whole or leaves no trace.** The order of the delegator's balances is
asked before anything is written, since a delegator without a recorded balance has it recorded after
the change. -/
theorem delegate_settled (host : Host) (e : Engine) (delegator target : Account)
    (now : Timestamp) :
    (delegate host delegator target now).Settled e
      (fun _ => Answered host e (.delegate delegator target now) .done)
      (Refused host e (.delegate delegator target now)) := by
  unfold delegate
  refine .get (.check (fun f hf => .delegatorOrder hf) fun _ horder => ?_)
  rw [Ledger.checkOrder_eq_ok_iff] at horder
  refine .bind ((Directory.delegate_settled ..).within rfl |>.mono (fun _ _ h => h)
    fun f hf => .move horder hf) ?_
  rintro change e' ⟨delegation, hmoves, rfl⟩
  cases hmoves with
  | unchanged same => exact ⟨_, _, rfl, .keepDelegate horder same⟩
  | changed movable =>
    have hdone : Answered host e (.delegate delegator target now) .done _ :=
      .moveDelegate horder movable
    have hw := perform_recordHeld
      (e := { e with state := { e.state with
        delegation := e.state.delegation.redelegated delegator target
          (e.state.balanceAt host delegator now) now } }) horder
      (e.state.balanceAt host delegator now)
    cases hh : e.state.held.hasHistory delegator with
    | true =>
      rw [hh] at hdone
      exact ⟨(), _, rfl, hdone⟩
    | false =>
      rw [hh] at hdone
      exact ⟨(), _, Procedure.perform_bind_ok hw, hdone⟩

/-! ### The calls on proposals -/

/-- A call that needs parameters goes on once they are given. -/
theorem settled_of_initialized {α : Type} {c : Call} {k : Unit → Procedure Engine α}
    {Done : α → Engine → Prop} (works : c.onProposals = true)
    (hk : e.state.initialized = true → (k ()).Settled e Done (Refused host e c)) :
    (liftM e.state.checkInitialized >>= k : Procedure Engine α).Settled e Done
      (Refused host e c) := by
  refine .check (fun f hf => ?_) fun _ hinit => hk (State.checkInitialized_eq_ok_iff.1 hinit)
  obtain ⟨hbefore, rfl⟩ := State.checkInitialized_eq_error_iff.1 hf
  exact .notInitialized works hbefore

/-- A call that names a proposal goes on if there is one. -/
theorem settled_of_found {α : Type} {c : Call} {k : Proposal → Procedure Engine α}
    {Done : α → Engine → Prop} (named : c.proposal? = some id)
    (hk : ∀ p, e.state.proposals[id]? = some p → (k p).Settled e Done (Refused host e c)) :
    (liftM (e.state.proposal id) >>= k : Procedure Engine α).Settled e Done
      (Refused host e c) := by
  refine .check (fun f hf => ?_) fun p hfound => hk p (State.proposal_eq_ok_iff.1 hfound)
  obtain ⟨hmissing, rfl⟩ := State.proposal_eq_error_iff.1 hf
  exact .unknown named hmissing

/-- **Proposing is whole or leaves no trace.** The window and the next number are computed before
the proposal is stored. -/
theorem create_settled (host : Host) (e : Engine) (proposer : Account) (draft : Draft)
    (now : Timestamp) :
    (create host proposer draft now).Settled e
      (fun id => Answered host e (.create proposer draft now) (.created id))
      (Refused host e (.create proposer draft now)) := by
  unfold create
  refine .get (settled_of_initialized rfl fun hinit => ?_)
  refine .guard (fun hshort => .belowThreshold hshort) fun hable => ?_
  refine .check (fun f hf => .unusable hf) fun _ husable => ?_
  refine .check (fun f hf => ?_) fun startTime hstart => ?_
  · obtain ⟨hfar, rfl⟩ := Timestamp.checkedAfter_eq_error_iff.1 hf
    exact .unrepresentable (.inl (by omega))
  rw [Timestamp.checkedAfter_eq_ok_iff] at hstart
  refine .check (fun f hf => ?_) fun endTime hend => ?_
  · obtain ⟨hfar, rfl⟩ := Timestamp.checkedAfter_eq_error_iff.1 hf
    exact .unrepresentable (.inl (by omega))
  rw [Timestamp.checkedAfter_eq_ok_iff] at hend
  refine .check (fun f hf => ?_) fun count hcount => ?_
  · obtain ⟨hfar, rfl⟩ := Quantity.checkedSucc_eq_error_iff.1 hf
    exact .unrepresentable (.inr hfar)
  exact .of_ok rfl (.create hinit (Quantity.not_lt.1 hable) husable hstart hend
    (Quantity.checkedSucc_eq_ok_iff.1 hcount))

/-- **Canceling is whole or leaves no trace.** Authority and phase are checked on the record that is
then replaced. -/
theorem cancel_settled (host : Host) (e : Engine) (caller : Account) (id : ProposalId)
    (now : Timestamp) :
    (cancel host caller id now).Settled e
      (fun _ => Answered host e (.cancel caller id now) .done)
      (Refused host e (.cancel caller id now)) := by
  unfold cancel
  refine .get (settled_of_initialized rfl fun hinit => ?_)
  refine settled_of_found rfl fun p hfound => ?_
  refine .guard (fun hstranger => ?_) fun hauthority => ?_
  · exact .stranger hfound hstranger.1 (by simpa using hstranger.2)
  refine .guard (fun hlate => .decided hfound hlate) fun hundecided => ?_
  have hwrite := perform_updateProposal hfound ({ · with canceled := true })
  refine .of_ok (Procedure.perform_bind_ok hwrite) (.cancel hinit hfound ?_ ?_)
  · rcases Decidable.not_and_iff_not_or_not.1 hauthority with h | h
    · exact .inl (Decidable.not_not.1 h)
    · exact .inr (by simpa using h)
  · rcases Decidable.not_and_iff_not_or_not.1 hundecided with h | h
    · exact .inl (Decidable.not_not.1 h)
    · exact .inr (Decidable.not_not.1 h)

/-- **Voting is whole or leaves no trace.** That the voter has no vote yet is checked at the start,
so the vote book takes the vote, and the proposal that was found is there when its tally is
replaced. -/
theorem vote_settled (host : Host) (e : Engine) (voter : Account) (id : ProposalId)
    (support : Support) (reason : String) (now : Timestamp) :
    (vote host voter id support reason now).Settled e
      (fun weight => Answered host e (.vote voter id support reason now) (.weight weight))
      (Refused host e (.vote voter id support reason now)) := by
  unfold vote
  refine .get (settled_of_initialized rfl fun hinit => ?_)
  refine settled_of_found rfl fun p hfound => ?_
  refine .check (fun f hf => ?_) fun _ hunvoted => ?_
  · obtain ⟨hvoted, rfl⟩ := VoteBook.checkNotVoted_eq_error_iff.1 hf
    exact .votedAlready hvoted
  rw [VoteBook.checkNotVoted_eq_ok_iff] at hunvoted
  refine .guard (fun hclosed => .closed hfound hunvoted hclosed) fun hactive => ?_
  refine .guard (fun hnone => ?_) fun hsome => ?_
  · exact .weightless hfound hunvoted (Quantity.isZero_iff.1 hnone)
  refine .check (fun f hf => ?_) fun tally hcast => ?_
  · obtain ⟨hfull, rfl⟩ := Tally.cast_eq_error_iff.1 hf
    exact .uncountable hfound hunvoted hfull
  refine .check (fun f hf => ?_) fun votes hrecord => ?_
  · rw [VoteBook.record_eq_ok_iff.2 ⟨hunvoted, rfl⟩] at hf
    cases hf
  obtain ⟨-, rfl⟩ := VoteBook.record_eq_ok_iff.1 hrecord
  have hweighty : 0 < (e.state.votingPowerAt host voter p.snapshotTime).val :=
    Nat.pos_of_ne_zero fun h => hsome (Quantity.isZero_iff.2 h)
  have hwrite (votes : VoteBook) := perform_updateProposal
    (e := { e with state := { e.state with votes } }) hfound ({ · with tally })
  exact .of_ok ((Procedure.perform_bind_ok (perform_modifyState _ e)).trans
      (Procedure.perform_bind_ok (hwrite _)))
    (.vote hinit hfound hunvoted (Decidable.not_not.1 hactive) hweighty hcast)

/-! ### The calls for execution -/

/-- What carrying out the action of a proposal does. -/
inductive Acts (host : Host) (e : Engine) (p : Proposal) : ByteString → Engine → Prop where
  | invoked {target : Account} {output : ByteString} (external : p.target = .external target)
      (success : host.invoke ⟨target, p.payload, p.value⟩ = .ok output) :
      Acts host e p output
        { e with invocations := e.invocations ++ [⟨target, p.payload, p.value⟩] }
  | amended {amendment : Amendment} {parameters : Parameters}
      (internal : p.target = .parameterStore) (free : p.value.isZero = true)
      (decoded : Amendment.decode p.payload = .ok amendment)
      (applied : amendment.apply e.state.parameters = .ok parameters) :
      Acts host e p []
        { e with
          state := { e.state with parameters }
          events := e.events ++ [.parametersUpdated parameters] }

/-- An action that is due is carried out, or refused without a trace. An amendment that could be
applied is put in place. -/
theorem runAction_settled (found : e.state.proposals[id]? = some p)
    (due : p.Due now e.state.parameters eta) :
    (runAction host p).Settled e (Acts host e p) (Refused host e (.execute id now)) := by
  unfold runAction
  rcases ht : p.target with _ | target
  · refine .guard (fun hpaid => .carriesValue found due ht (by simpa using hpaid)) fun hfree => ?_
    refine .check (fun f hf => .undecodable found due ht hf) fun amendment hdecoded => .get ?_
    refine .check (fun f hf => .inapplicable found due ht hdecoded hf) fun next happlied => ?_
    refine .check (fun f hf => ?_) fun parameters hreplaced => ?_
    · rw [Amendment.replaceBy_of_apply happlied] at hf
      cases hf
    · rw [Amendment.replaceBy_of_apply happlied] at hreplaced
      cases hreplaced
      exact .of_ok rfl (.amended ht (by simpa using hfree) hdecoded happlied)
  · unfold invoke
    simp only
    split
    · rename_i output hsuccess
      exact .of_ok rfl (.invoked ht hsuccess)
    · rename_i why hfailure
      exact .throw (.failed found due ht hfailure)

/-- After its action was carried out, nothing refuses to note that a proposal was executed. -/
theorem perform_conclude (found : e.state.proposals[id]? = some p) (eta : Timestamp)
    (output : ByteString) :
    (do
      updateProposal id ({ · with armedAt := some eta, executed := true })
      if p.armedAt.isNone then
        emit (.proposalQueued id eta)
      emit (.proposalExecuted id)
      return .executed output : Procedure Engine Outcome).perform e =
      (.ok (.executed output), { e with
        state := { e.state with
          proposals := e.state.proposals.insert id
            { p with armedAt := some eta, executed := true } }
        events := e.events ++ p.arming id eta ++ [.proposalExecuted id] }) := by
  rw [Procedure.perform_bind_ok (perform_updateProposal found _)]
  unfold Proposal.arming
  split
  · rfl
  · rw [List.append_nil]
    rfl

/-- **A proposal that is due is carried out whole or leaves no trace.** Only its action can be
refused, and that comes first. -/
theorem carryOut_settled (initialized : e.state.initialized = true)
    (found : e.state.proposals[id]? = some p) (due : p.Due now e.state.parameters eta) :
    (carryOut host p id eta).Settled e
      (fun outcome => Answered host e (.execute id now) (.outcome outcome))
      (Refused host e (.execute id now)) := by
  unfold carryOut
  refine .bind (runAction_settled found due) fun output e' hacts => ?_
  cases hacts with
  | invoked external success =>
    refine ⟨_, _, perform_conclude ?_ eta output, ?_⟩
    · exact found
    · exact .invoke initialized found due external success
  | amended internal free decoded applied =>
    refine ⟨_, _, perform_conclude ?_ eta [], ?_⟩
    · exact found
    · exact .amend initialized found due internal free decoded applied

/-- **Executing is whole or leaves no trace.** What it does is the next step of the proposal.
Without a delay the proposal is due at the instant of its arming, and its action is carried out at
once. -/
theorem execute_settled (host : Host) (e : Engine) (id : ProposalId) (now : Timestamp) :
    (execute host id now).Settled e
      (fun outcome => Answered host e (.execute id now) (.outcome outcome))
      (Refused host e (.execute id now)) := by
  unfold execute
  refine .get (settled_of_initialized rfl fun hinit => ?_)
  refine settled_of_found rfl fun p hfound => ?_
  refine .check (fun f hf => .notExecutable hfound hf) fun step hstep => ?_
  have hnext := Timelock.nextStep_eq_ok_iff.1 hstep
  cases step with
  | wait eta =>
    obtain ⟨hqueued, harmed, hearly⟩ := hnext
    exact .of_ok rfl (.wait hinit hfound hqueued harmed hearly)
  | run eta =>
    obtain ⟨hqueued, harmed, hreached⟩ := hnext
    exact carryOut_settled hinit hfound (.armed hqueued harmed hreached)
  | arm eta =>
    obtain ⟨hsucceeded, hdelayed⟩ := hnext
    refine .ite (fun hlater => ?_) fun hnow => ?_
    · have hwrite := perform_updateProposal hfound ({ · with armedAt := some eta })
      exact .of_ok (Procedure.perform_bind_ok hwrite)
        (.arm hinit hfound hsucceeded hdelayed hlater)
    · have hle : eta.val ≤ now.val := Timestamp.not_lt.1 hnow
      obtain rfl : eta = now := Timestamp.ext (by omega)
      exact carryOut_settled hinit hfound (.undelayed hsucceeded (by omega))

/-! ### Any call -/

/-- **A call is answered as described, or refused for a reason and without a trace.** -/
theorem call_settled (host : Host) (e : Engine) (c : Call) :
    (call host c).Settled e (Answered host e c) (Refused host e c) := by
  cases c with
  | setUp caller parameters =>
    exact .bind (setUp_settled ..) fun _ e' h => ⟨_, e', rfl, h⟩
  | recordBalance account balance now =>
    exact .bind (recordBalance_settled ..) fun _ e' h => ⟨_, e', rfl, h⟩
  | delegate delegator target now =>
    exact .bind (delegate_settled ..) fun _ e' h => ⟨_, e', rfl, h⟩
  | undelegate delegator now =>
    exact .bind ((delegate_settled ..).mono (fun _ _ h => .undelegate h) fun _ h => .undelegate h)
      fun _ e' h => ⟨_, e', rfl, h⟩
  | create proposer draft now =>
    exact .map (create_settled ..)
  | cancel caller id now =>
    exact .bind (cancel_settled ..) fun _ e' h => ⟨_, e', rfl, h⟩
  | vote voter id support reason now =>
    exact .map (vote_settled ..)
  | execute id now =>
    exact .map (execute_settled ..)
  | setParameters caller parameters =>
    exact .bind (setParameters_settled ..) fun _ e' h => h.elim

/-- **A refused call leaves no trace**: it changes no part of the state, announces nothing and
carries out no outside action. -/
theorem refused_call_leaves_no_trace {c : Call} {f : Fault}
    (h : ((call host c).perform e).1 = .error f) : ((call host c).perform e).2 = e := by
  rcases (call_settled host e c).cases with ⟨answer, e', hperform, -⟩ | ⟨f', hperform, -⟩
  · rw [hperform] at h
    cases h
  · rw [hperform]

/-- An action that reverts when it is due leaves the proposal to be carried out later. -/
theorem reverted_action_leaves_no_trace :
    let alice : Account := ⟨"civ_alice", by decide⟩
    let foundation : Account := ⟨"civ_foundation", by decide⟩
    let rehearsal : Rehearsal := { owner := foundation }
    let draft : Draft := ⟨"raise", "", .external foundation, [1], .zero⟩
    let e := run {} [
      (rehearsal.host, .setUp foundation { votingDelay := .zero, executionDelay := .zero }),
      (rehearsal.host, .recordBalance alice ⟨5, by decide⟩ ⟨⟨1, by decide⟩⟩),
      (rehearsal.host, .create alice draft ⟨⟨2, by decide⟩⟩),
      (rehearsal.host, .vote alice .first .inFavor "" ⟨⟨2, by decide⟩⟩)]
    let reverting : Rehearsal := { rehearsal with revertReason := some "closed" }
    let execution := (call reverting.host (.execute .first ⟨⟨604803, by decide⟩⟩)).perform e
    execution.1 = .error (.executionFailed (.reverted "closed")) ∧ execution.2 = e := by
  intro alice foundation rehearsal draft e reverting execution
  have hreverted : execution.1 = .error (.executionFailed (.reverted "closed")) := by
    decide +kernel
  exact ⟨hreverted, refused_call_leaves_no_trace hreverted⟩

end Engine
end TokenGovernance
