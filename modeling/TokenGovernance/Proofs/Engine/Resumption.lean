/-
# Engines that are stopped and go on

An engine need not be one run long. Its state can be saved in a store, and another engine can be
loaded from there and be called on. The state of such an engine is one that a run without any stop
leads to (`Engine.Continued.exists_reachable`): saving and loading give the state back, and a call
makes the same of a state whatever was logged before. So what holds of the states that runs lead to
needs no second proof for engines that were stopped on the way.
-/

import TokenGovernance.Proofs.Engine.Restart

namespace TokenGovernance
namespace Engine

variable {e e' : Engine}

/-- An engine that is new, or that goes on by a call, or by being saved in some store and loaded
from there. -/
inductive Continued : Engine → Prop where
  | new : Continued {}
  | call {e : Engine} (h : Continued e) (host : Host) (c : Call) :
      Continued (Turn.mk e host c).after
  | reloaded {e : Engine} (h : Continued e) {store saved : Store} {snapshot : ByteString}
      {state : State} (recordable : e.state.Recordable)
      (spelled : e.state.SpelledBy snapshot) (short : snapshot.length < 1 <<< 64)
      (stored : (e.state.saveAs snapshot).perform store = (.ok (), saved))
      (loaded : State.load saved = .ok state) : Continued { state }

/-- A run makes the same of a state, whatever was logged before. -/
theorem run_state_congr (h : e.state = e'.state) (calls : List (Host × Call)) :
    (e.run calls).state = (e'.run calls).state := by
  have hrun (e : Engine) : (e.run calls).state = (Engine.run { state := e.state } calls).state := by
    have hfollowing := run_following { state := e.state } e calls
    rw [following_self] at hfollowing
    rw [hfollowing]
    rfl
  rw [hrun e, hrun e', h]

/-- A call makes the same of a state, whatever was logged before. -/
theorem after_state_congr (h : e.state = e'.state) (host : Host) (c : Call) :
    (Turn.mk e host c).after.state = (Turn.mk e' host c).after.state :=
  run_state_congr h [(host, c)]

/-- **A run that is continued has the state of one that was never stopped.** -/
theorem Continued.exists_reachable (h : e.Continued) :
    ∃ e' : Engine, e'.Reachable ∧ e'.state = e.state := by
  induction h with
  | new => exact ⟨{}, reachable_run [], rfl⟩
  | call _ host c ih =>
    obtain ⟨e', hreachable, hstate⟩ := ih
    exact ⟨_, hreachable.run [(host, c)], after_state_congr hstate host c⟩
  | reloaded _ recordable spelled short stored loaded ih =>
    obtain ⟨e', hreachable, hstate⟩ := ih
    have filed := hreachable.filed
    rw [hstate] at filed
    exact ⟨e', hreachable, hstate.trans
      (State.eq_of_load filed recordable spelled short stored loaded).symm⟩

/-- A run without any stop is one of them. -/
theorem Reachable.continued (h : e.Reachable) : e.Continued := by
  obtain ⟨calls, rfl⟩ := h
  refine trace_induction (P := fun _ e => e.Continued) .new (fun _ t ht => ?_) calls
  exact .call ht t.host t.call

end Engine
end TokenGovernance
