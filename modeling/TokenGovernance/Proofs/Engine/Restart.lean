/-
# Saved, loaded and called again

A procedure of the engine adds to what was announced and carried out, and never looks at it
(`Engine.Forward`). So an engine that starts with the state of another one goes on as that one
would have (`Engine.trace_told`), and since saving and loading gives back the state of every
reachable engine, it can be stopped and restored at any time (`Engine.Reachable.restored`).
-/

import TokenGovernance.Proofs.Engine.EventLog
import TokenGovernance.Proofs.Engine.Execution
import TokenGovernance.Proofs.Engine.Integrity
import TokenGovernance.Proofs.Store

namespace TokenGovernance

open Binary (Codec Spelling)

namespace Engine

variable {α β : Type}

/-- The engine with the log of another one before its own. -/
def following (e past : Engine) : Engine :=
  { e with
    events := past.events ++ e.events
    invocations := past.invocations ++ e.invocations }

/-- **A procedure that does not look back**: what was logged before makes no difference to it. -/
structure Forward (p : Procedure Engine α) : Prop where
  perform_following (past e : Engine) :
    p.perform (e.following past) = ((p.perform e).1, (p.perform e).2.following past)

namespace Forward

variable {p q : Procedure Engine α} {k : α → Procedure Engine β}

/-- An answer does not look back. -/
theorem pure (a : α) : Forward (Pure.pure a) := ⟨fun _ _ => rfl⟩

/-- A refusal does not look back. -/
theorem throw (f : Fault) : Forward (MonadExcept.throw f : Procedure Engine α) := ⟨fun _ _ => rfl⟩

/-- A check sees what it is given and nothing of the log. -/
theorem check (x : Except Fault α) : Forward (liftM x) := ⟨fun _ _ => rfl⟩

/-- Procedures in a row do not look back if none of them does. -/
theorem bind (hp : Forward p) (hk : ∀ a, Forward (k a)) : Forward (p >>= k) := by
  refine ⟨fun past e => ?_⟩
  rw [Procedure.perform_bind, Procedure.perform_bind, hp.perform_following]
  rcases p.perform e with ⟨f | a, t⟩
  · rfl
  · exact (hk a).perform_following past t

/-- Naming the answer does not look back. -/
theorem map (hp : Forward p) (g : α → β) : Forward (g <$> p) := by
  refine ⟨fun past e => ?_⟩
  rw [Procedure.perform_map, Procedure.perform_map, hp.perform_following]

/-- The state may be read, but not the log. -/
theorem get {k : Engine → Procedure Engine β} (same : ∀ past e, k (e.following past) = k e)
    (hk : ∀ e, Forward (k e)) : Forward (MonadState.get >>= k) := by
  refine ⟨fun past e => ?_⟩
  show (k (e.following past)).perform (e.following past) = _
  rw [same past e]
  exact (hk e).perform_following past e

/-- A branch does not look back if neither side does. -/
theorem ite {c : Prop} [Decidable c] (hp : Forward p) (hq : Forward q) :
    Forward (if c then p else q) := by
  split
  · exact hp
  · exact hq

/-- A refusal, or what comes after it. -/
theorem guard {c : Prop} [Decidable c] {f : Fault} {k : Unit → Procedure Engine β}
    (hk : Forward (k ())) : Forward (if c then MonadExcept.throw f >>= k else k ()) :=
  .ite (.bind (.throw f) fun _ => hk) hk

end Forward

/-! ### Every call -/

/-- An event is added behind whatever was announced. -/
theorem forward_emit (event : Event) : Forward (emit event) :=
  ⟨fun past e => congrArg (fun events => (Except.ok (), { e.following past with events }))
    (List.append_assoc past.events e.events [event])⟩

/-- A change of the state is no matter of the log. -/
theorem forward_modifyState (f : State → State) : Forward (modifyState f) := ⟨fun _ _ => rfl⟩

/-- A procedure on delegations does not see the log. -/
theorem forward_onDelegation (p : Procedure Directory α) : Forward (onDelegation p) :=
  ⟨fun _ _ => rfl⟩

/-- A balance is recorded whatever was logged. -/
theorem forward_recordHeld (account : Account) (balance : Amount) (now : Timestamp) :
    Forward (recordHeld account balance now) :=
  .get (fun _ _ => rfl) fun _ => .bind (.check _) fun _ => forward_modifyState _

/-- A record is replaced whatever was logged. -/
theorem forward_updateProposal (id : ProposalId) (f : Proposal → Proposal) :
    Forward (updateProposal id f) :=
  .get (fun _ _ => rfl) fun _ => .bind (.check _) fun _ => forward_modifyState _

/-- Setting up does not look back. -/
theorem forward_setUp (host : Host) (caller : Account) (parameters : Parameters) :
    Forward (setUp host caller parameters) := by
  refine .get (fun _ _ => rfl) fun _ => .guard (.guard ?_)
  exact .bind (.check _) fun _ => forward_modifyState _

/-- Recording a balance does not look back. -/
theorem forward_recordBalance (account : Account) (balance : Amount) (now : Timestamp) :
    Forward (recordBalance account balance now) := by
  refine .get (fun _ _ => rfl) fun _ => .bind (.check _) fun _ => ?_
  exact .bind (forward_onDelegation _) fun _ => forward_recordHeld _ _ _

/-- Naming a delegate does not look back. -/
theorem forward_delegate (host : Host) (delegator target : Account) (now : Timestamp) :
    Forward (delegate host delegator target now) := by
  refine .get (fun _ _ => rfl) fun _ => .bind (.check _) fun _ => ?_
  refine .bind (forward_onDelegation _) fun change => ?_
  cases change with
  | none => exact .pure ()
  | some change =>
    exact .ite (.bind (forward_recordHeld _ _ _) fun _ => forward_emit _) (forward_emit _)

/-- Proposing does not look back. -/
theorem forward_create (host : Host) (proposer : Account) (draft : Draft) (now : Timestamp) :
    Forward (create host proposer draft now) := by
  refine .get (fun _ _ => rfl) fun _ => .bind (.check _) fun _ => .guard ?_
  refine .bind (.check _) fun _ => .bind (.check _) fun _ => .bind (.check _) fun _ => ?_
  refine .bind (.check _) fun _ => .bind (forward_emit _) fun _ => ?_
  exact .bind (forward_modifyState _) fun _ => .pure _

/-- Canceling does not look back. -/
theorem forward_cancel (host : Host) (caller : Account) (id : ProposalId) (now : Timestamp) :
    Forward (cancel host caller id now) := by
  refine .get (fun _ _ => rfl) fun _ => .bind (.check _) fun _ => .bind (.check _) fun _ => ?_
  exact .guard (.guard (.bind (forward_updateProposal _ _) fun _ => forward_emit _))

/-- Voting does not look back. -/
theorem forward_vote (host : Host) (voter : Account) (id : ProposalId) (support : Support)
    (reason : String) (now : Timestamp) : Forward (vote host voter id support reason now) := by
  refine .get (fun _ _ => rfl) fun _ => .bind (.check _) fun _ => .bind (.check _) fun _ => ?_
  refine .bind (.check _) fun _ => .guard (.guard ?_)
  refine .bind (.check _) fun _ => .bind (.check _) fun _ => ?_
  refine .bind (forward_modifyState _) fun _ => .bind (forward_updateProposal _ _) fun _ => ?_
  exact .bind (forward_emit _) fun _ => .pure _

/-- An outside action is added behind whatever was carried out. -/
theorem forward_invoke (host : Host) (invocation : Invocation) :
    Forward (invoke host invocation) := by
  unfold invoke
  split
  · refine .bind ⟨fun past e => ?_⟩ fun _ => .pure _
    exact congrArg (fun invocations => (Except.ok (), { e.following past with invocations }))
      (List.append_assoc past.invocations e.invocations [invocation])
  · exact .throw _

/-- Neither kind of action looks back. -/
theorem forward_runAction (host : Host) (p : Proposal) : Forward (runAction host p) := by
  unfold runAction
  split
  · exact forward_invoke _ _
  · refine .guard (.bind (.check _) fun _ => .get (fun _ _ => rfl) fun _ => ?_)
    refine .bind (.check _) fun _ => .bind (.check _) fun _ => ?_
    exact .bind (forward_modifyState _) fun _ => .bind (forward_emit _) fun _ => .pure _

/-- Carrying out an action does not look back. -/
theorem forward_carryOut (host : Host) (p : Proposal) (id : ProposalId) (eta : Timestamp) :
    Forward (carryOut host p id eta) := by
  refine .bind (forward_runAction host p) fun _ => .bind (forward_updateProposal _ _) fun _ => ?_
  exact .ite (.bind (forward_emit _) fun _ => .bind (forward_emit _) fun _ => .pure _)
    (.bind (forward_emit _) fun _ => .pure _)

/-- Executing does not look back. -/
theorem forward_execute (host : Host) (id : ProposalId) (now : Timestamp) :
    Forward (execute host id now) := by
  refine .get (fun _ _ => rfl) fun _ => .bind (.check _) fun _ => .bind (.check _) fun p => ?_
  refine .bind (.check _) fun step => ?_
  cases step with
  | wait eta => exact .pure _
  | run eta => exact forward_carryOut host p id eta
  | arm eta =>
    refine .ite (.bind (forward_updateProposal _ _) fun _ => ?_) (forward_carryOut host p id eta)
    exact .bind (forward_emit _) fun _ => .pure _

/-- Setting parameters by hand is refused whatever was logged. -/
theorem forward_setParameters (caller : Account) (next : Parameters) :
    Forward (setParameters caller next) :=
  .bind (.check _) fun _ => forward_modifyState _

/-- **No call looks back.** -/
theorem forward_call (host : Host) (c : Call) : Forward (call host c) := by
  cases c with
  | setUp caller parameters => exact .bind (forward_setUp ..) fun _ => .pure _
  | recordBalance account balance now => exact .bind (forward_recordBalance ..) fun _ => .pure _
  | delegate delegator target now => exact .bind (forward_delegate ..) fun _ => .pure _
  | undelegate delegator now => exact .bind (forward_delegate ..) fun _ => .pure _
  | create proposer draft now => exact .map (forward_create ..) _
  | cancel caller id now => exact .bind (forward_cancel ..) fun _ => .pure _
  | vote voter id support reason now => exact .map (forward_vote ..) _
  | execute id now => exact .map (forward_execute ..) _
  | setParameters caller parameters => exact .bind (forward_setParameters ..) fun _ => .pure _

end Engine

namespace Turn

/-- What a turn tells its caller and the world: the answer, what is announced and what is carried
out. -/
def told (t : Turn) : Except Fault Answer × List Event × List Invocation :=
  (t.answer, t.announced, t.invoked)

/-- A turn leaves the same behind, after whatever was logged before. -/
theorem after_following (e past : Engine) (host : Host) (c : Call) :
    (Turn.mk (e.following past) host c).after = (Turn.mk e host c).after.following past :=
  congrArg Prod.snd ((Engine.forward_call host c).perform_following past e)

/-- **A turn tells the same, whatever was logged before.** -/
theorem told_following (e past : Engine) (host : Host) (c : Call) :
    (Turn.mk (e.following past) host c).told = (Turn.mk e host c).told := by
  have hanswer := congrArg Prod.fst ((Engine.forward_call host c).perform_following past e)
  have drop_log {γ : Type} (past log later : List γ) :
      (past ++ later).drop (past ++ log).length = later.drop log.length := by
    rw [List.length_append, ← List.drop_drop, List.drop_left]
  have hafter := after_following e past host c
  refine Prod.ext hanswer (Prod.ext ?_ ?_)
  · show List.drop _ (Turn.mk (e.following past) host c).after.events = _
    rw [hafter]
    exact drop_log ..
  · show List.drop _ (Turn.mk (e.following past) host c).after.invocations = _
    rw [hafter]
    exact drop_log ..

end Turn

namespace Engine

/-- A log of its own is all that distinguishes an engine from a new one with its state. -/
theorem following_self (e : Engine) : ({ state := e.state } : Engine).following e = e := by
  unfold following
  rw [List.append_nil, List.append_nil]

/-! ### Over a run -/

/-- A run leaves the same behind, after whatever was logged before. -/
theorem run_following (e past : Engine) (calls : List (Host × Call)) :
    (e.following past).run calls = (e.run calls).following past := by
  induction calls generalizing e with
  | nil => rfl
  | cons turn calls ih =>
    obtain ⟨host, c⟩ := turn
    rw [run_cons, run_cons, Turn.after_following, ih]

/-- **The turns of a run tell the same, whatever was logged before.** -/
theorem trace_told (e past : Engine) (calls : List (Host × Call)) :
    ((e.following past).trace calls).map Turn.told = (e.trace calls).map Turn.told := by
  induction calls generalizing e with
  | nil => rfl
  | cons turn calls ih =>
    obtain ⟨host, c⟩ := turn
    rw [trace, trace, List.map_cons, List.map_cons, Turn.told_following, Turn.after_following, ih]

/-- The proposals of a reachable engine are filed under the numbers up to their count. -/
theorem Reachable.filed {e : Engine} (h : e.Reachable) : e.state.Filed :=
  ⟨h.registered.numbered, h.mem_proposals_iff⟩

/-- **An engine can be stopped and restored at any time.** Saving its state answers in any store
that works, whatever it holds, and loading gives the state back, in whatever order the maps and sets
of the snapshot were written; and an engine that goes on from there gives the same answers,
announces and carries out the same and has the same state as the original, whatever is called. -/
theorem Reachable.restored {e : Engine} (h : e.Reachable) {store : Store}
    (working : store.failure = none) (recordable : e.state.Recordable) :
    e.state.save = e.state.saveAs (Codec.snapshot.write e.state) ∧
    e.state.SpelledBy (Codec.snapshot.write e.state) ∧
    ∀ snapshot, e.state.SpelledBy snapshot → snapshot.length < 1 <<< 64 →
      ∃ saved restored, (e.state.saveAs snapshot).perform store = (.ok (), saved) ∧
        State.load saved = .ok restored ∧ restored = e.state ∧
        ∀ calls,
          (Engine.trace { state := restored } calls).map Turn.told =
            (e.trace calls).map Turn.told ∧
          (Engine.run { state := restored } calls).state = (e.run calls).state := by
  refine ⟨e.state.save_eq_saveAs, e.state.spelledBy_write, fun snapshot spelled short => ?_⟩
  refine ⟨_, e.state, State.perform_saveAs working e.state snapshot,
    State.load_saved working h.filed recordable spelled short, rfl, fun calls => ?_⟩
  have htold := trace_told { state := e.state } e calls
  have hrun := run_following { state := e.state } e calls
  rw [following_self] at htold hrun
  exact ⟨htold.symm, by rw [hrun]; rfl⟩

/-- A snapshot with its balances in the opposite order, saved over what an engine with one proposal
more had left behind. -/
theorem restored_of_other_order :
    let alice : Account := ⟨"civ_alice", by decide⟩
    let bob : Account := ⟨"civ_bob", by decide⟩
    let foundation : Account := ⟨"civ_foundation", by decide⟩
    let host := Rehearsal.host { owner := foundation }
    let e := run {} [
      (host, .setUp foundation {}),
      (host, .recordBalance alice ⟨5, by decide⟩ ⟨⟨1, by decide⟩⟩),
      (host, .recordBalance bob ⟨7, by decide⟩ ⟨⟨1, by decide⟩⟩),
      (host, .create alice ⟨"raise", "", .external foundation, [1], .zero⟩ ⟨⟨2, by decide⟩⟩)]
    let store : Store :=
      { proposals := (Std.ExtTreeMap.empty.insert .first [1]).insert ⟨⟨2, by decide⟩⟩ [2]
        metadata := Std.ExtTreeMap.empty.insert State.snapshotName [3] }
    let snapshot := Codec.bool.write e.state.initialized ++
      (Codec.parameters.write e.state.parameters ++ (Codec.word.write e.state.proposalCount ++
      (Codec.voteBook.write e.state.votes ++
      ((Codec.account.pair (Codec.history Codec.amount)).list.write
          e.state.held.series.toList.reverse ++
        Codec.directory.write e.state.delegation))))
    snapshot ≠ Codec.snapshot.write e.state ∧
      ∃ saved, (e.state.saveAs snapshot).perform store = (.ok (), saved) ∧
        State.load saved = .ok e.state := by
  intro alice bob foundation host e store snapshot
  have hrecordable : e.state.Recordable := by decide +kernel
  have hshort : snapshot.length < 1 <<< 64 := by decide +kernel
  have hother : snapshot ≠ Codec.snapshot.write e.state := by decide +kernel
  have hheld : Spelling.ledger.Spells e.state.held
      ((Codec.account.pair (Codec.history Codec.amount)).list.write
        e.state.held.series.toList.reverse) :=
    ⟨_, List.reverse_perm _, Spelling.spells_write _ _⟩
  have hspelled : e.state.SpelledBy snapshot :=
    ⟨_, _, Spelling.bool.spells_write _, ⟨_, _, Spelling.parameters.spells_write _,
      ⟨_, _, Spelling.word.spells_write _, ⟨_, _, Spelling.voteBook.spells_write _,
        ⟨_, _, hheld, Spelling.directory.spells_write _, rfl⟩, rfl⟩, rfl⟩, rfl⟩, rfl⟩
  have hreachable : e.Reachable := reachable_run _
  have hworking : store.failure = none := rfl
  obtain ⟨-, -, hrestored⟩ := hreachable.restored hworking hrecordable
  obtain ⟨saved, restored, hsaved, hloaded, rfl, -⟩ := hrestored snapshot hspelled hshort
  exact ⟨hother, saved, hsaved, hloaded⟩

end Engine
end TokenGovernance
