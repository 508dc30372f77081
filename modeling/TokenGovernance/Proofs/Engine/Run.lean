/-
# Runs

A run is a row of turns, each a call on the engine that the turn before left. `Engine.trace` lists
them. Since a refused call leaves the engine alone, an invariant of the engine has only to be kept
by answered calls (`Engine.run_invariant`); what relates the engine to the turns that led to
it is shown by going through them in order (`Engine.trace_induction`).
-/

import TokenGovernance.Proofs.Engine.Settled

namespace TokenGovernance

/-- A call on an engine, made against the host of the moment. -/
structure Turn where
  before : Engine
  host : Host
  call : Call

namespace Turn

/-- What the call returns. -/
def answer (t : Turn) : Except Fault Answer := ((Engine.call t.host t.call).perform t.before).1

/-- The engine that the call leaves. -/
def after (t : Turn) : Engine := ((Engine.call t.host t.call).perform t.before).2

/-- A turn is answered as described, or leaves the engine alone. -/
theorem answered_or_refused (t : Turn) :
    (∃ answer, t.answer = .ok answer ∧
      Engine.Answered t.host t.before t.call answer t.after) ∨
      ∃ f, t.answer = .error f ∧ t.after = t.before ∧
        Engine.Refused t.host t.before t.call f := by
  unfold answer after
  rcases (Engine.call_settled t.host t.before t.call).cases with ⟨a, e, h, ha⟩ | ⟨f, h, hf⟩
  · rw [h]
    exact .inl ⟨a, rfl, ha⟩
  · rw [h]
    exact .inr ⟨f, rfl, rfl, hf⟩

/-- A turn that does not fail is answered as described. -/
theorem answered {t : Turn} (h : t.answer.isOk = true) :
    ∃ answer, t.answer = .ok answer ∧
      Engine.Answered t.host t.before t.call answer t.after := by
  rcases t.answered_or_refused with hdone | ⟨f, hf, -⟩
  · exact hdone
  · rw [hf] at h
    cases h

/-- A turn that fails was refused for a reason. -/
theorem refused {t : Turn} {f : Fault} (h : t.answer = .error f) :
    Engine.Refused t.host t.before t.call f := by
  rcases t.answered_or_refused with ⟨answer, ha, -⟩ | ⟨f', hf', -, hr⟩
  · rw [ha] at h
    cases h
  · rw [hf'] at h
    cases h
    exact hr

end Turn

namespace Engine

variable {e : Engine}

/-- The turns of a run. -/
def trace (e : Engine) : List (Host × Call) → List Turn
  | [] => []
  | (host, c) :: calls => ⟨e, host, c⟩ :: trace (Turn.mk e host c).after calls

/-- A run begins with the turn of its first call. -/
theorem run_cons (e : Engine) (host : Host) (c : Call) (calls : List (Host × Call)) :
    e.run ((host, c) :: calls) = (Turn.mk e host c).after.run calls := rfl

/-- A run goes on from where an earlier one ended. -/
theorem run_append (e : Engine) (calls later : List (Host × Call)) :
    e.run (calls ++ later) = (e.run calls).run later :=
  List.foldl_append

/-- **What every turn keeps holds after a run**, of its turns and of the engine it leaves. -/
theorem trace_induction {P : List Turn → Engine → Prop} (start : P [] e)
    (next : ∀ turns t, P turns t.before → P (turns ++ [t]) t.after)
    (calls : List (Host × Call)) : P (e.trace calls) (e.run calls) := by
  suffices h : ∀ turns, P turns e → P (turns ++ e.trace calls) (e.run calls) from h [] start
  clear start
  induction calls generalizing e with
  | nil =>
    intro turns h
    rw [trace, List.append_nil]
    exact h
  | cons turn calls ih =>
    obtain ⟨host, c⟩ := turn
    intro turns h
    rw [trace, run_cons, List.append_cons]
    exact ih _ (next turns ⟨e, host, c⟩ h)

/-- **What every answered call keeps holds after a run.** -/
theorem run_invariant {P : Engine → Prop} (start : P e)
    (next : ∀ host e c answer e', Answered host e c answer e' → P e → P e')
    (calls : List (Host × Call)) : P (e.run calls) := by
  refine trace_induction (P := fun _ e => P e) start (fun _ t ht => ?_) calls
  rcases t.answered_or_refused with ⟨answer, -, ha⟩ | ⟨f, -, hkept, -⟩
  · exact next _ _ _ _ _ ha ht
  · rwa [hkept]

/-- A run of turns is cut at a turn where its calls are. -/
theorem exists_append_of_trace_eq {e : Engine} {t : Turn} {calls : List (Host × Call)}
    {earlier later : List Turn} (h : e.trace calls = earlier ++ t :: later) :
    ∃ before rest, calls = before ++ (t.host, t.call) :: rest ∧ t.before = e.run before ∧
      later = t.after.trace rest := by
  induction calls generalizing e earlier with
  | nil => simp [trace] at h
  | cons turn calls ih =>
    obtain ⟨host, c⟩ := turn
    rcases earlier with _ | ⟨first, earlier⟩
    · obtain ⟨rfl, rfl⟩ := List.cons.inj h
      exact ⟨[], calls, rfl, rfl, rfl⟩
    · obtain ⟨-, htail⟩ := List.cons.inj h
      obtain ⟨before, rest, rfl, hbefore, hlater⟩ := ih htail
      exact ⟨(host, c) :: before, rest, rfl, hbefore, hlater⟩

/-- A turn of a run starts from what the calls before it left. -/
theorem exists_append_of_mem_trace {e : Engine} {t : Turn} {calls : List (Host × Call)}
    (ht : t ∈ e.trace calls) :
    ∃ before later, calls = before ++ (t.host, t.call) :: later ∧ t.before = e.run before := by
  obtain ⟨earlier, later, h⟩ := List.append_of_mem ht
  obtain ⟨before, rest, hcalls, hbefore, -⟩ := exists_append_of_trace_eq h
  exact ⟨before, rest, hcalls, hbefore⟩

/-- An engine that some run leads to, with calls at any times and against any hosts. -/
def Reachable (e : Engine) : Prop := ∃ calls, run {} calls = e

/-- A run of a new engine leads to a reachable one. -/
theorem reachable_run (calls : List (Host × Call)) : (run {} calls).Reachable := ⟨calls, rfl⟩

/-- A run leads from a reachable engine to a reachable one. -/
theorem Reachable.run (h : e.Reachable) (later : List (Host × Call)) : (e.run later).Reachable := by
  obtain ⟨calls, rfl⟩ := h
  exact ⟨calls ++ later, run_append {} calls later⟩

/-- What holds at first and is kept by every answered call holds of every reachable engine. -/
theorem Reachable.invariant {P : Engine → Prop} (start : P {})
    (next : ∀ host e c answer e', Answered host e c answer e' → P e → P e')
    (h : e.Reachable) : P e := by
  obtain ⟨calls, rfl⟩ := h
  exact run_invariant start next calls

/-- What holds at first and is kept by every call answered by a reachable engine holds of every
reachable engine. -/
theorem Reachable.induction {P : Engine → Prop} (start : P {})
    (next : ∀ host e c answer e', e.Reachable → Answered host e c answer e' → P e → P e')
    (h : e.Reachable) : P e := by
  obtain ⟨calls, rfl⟩ := h
  refine (trace_induction (P := fun _ e => e.Reachable ∧ P e) ⟨reachable_run [], start⟩
    (fun _ t ⟨hr, ht⟩ => ⟨hr.run [(t.host, t.call)], ?_⟩) calls).2
  rcases t.answered_or_refused with ⟨answer, -, ha⟩ | ⟨f, -, hkept, -⟩
  · exact next _ _ _ _ _ hr ha ht
  · rwa [hkept]

/-- The turns of a run start from reachable engines. -/
theorem reachable_of_mem_trace {e : Engine} {t : Turn} {calls : List (Host × Call)}
    (h : e.Reachable) (ht : t ∈ e.trace calls) : t.before.Reachable := by
  induction calls generalizing e with
  | nil => cases ht
  | cons turn calls ih =>
    obtain ⟨host, c⟩ := turn
    rcases List.mem_cons.1 ht with rfl | ht
    · exact h
    · exact ih (h.run [(host, c)]) ht

end Engine
end TokenGovernance
