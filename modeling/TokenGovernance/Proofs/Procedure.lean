/-
# Procedures that leave no trace

A procedure writes as it goes and a refusal undoes nothing, so whether a refused procedure leaves
a trace depends on where its checks stand. `Procedure.Settled` says that it leaves none, together
with what it does when it answers and why it is refused when it does not. The rules follow the
shape of a procedure: checks come first and may refuse (`Settled.check`, `Settled.ite`), and what
follows the first write must be certain (`Settled.bind`, `Settled.of_ok`).
-/

import TokenGovernance.Procedure

namespace TokenGovernance
namespace Procedure

variable {σ τ α β : Type}

/-! ### What a single step does -/

/-- An answer writes nothing. -/
@[simp] theorem perform_pure (a : α) (s : σ) :
    (pure a : Procedure σ α).perform s = (.ok a, s) := rfl

/-- Reading answers with the state. -/
@[simp] theorem perform_get (s : σ) : (get : Procedure σ σ).perform s = (.ok s, s) := rfl

/-- A write answers with nothing. -/
@[simp] theorem perform_modify (g : σ → σ) (s : σ) :
    (modify g : Procedure σ Unit).perform s = (.ok (), g s) := rfl

/-- A check answers or refuses without looking at the state. -/
@[simp] theorem perform_check (x : Except Fault α) (s : σ) :
    (liftM x : Procedure σ α).perform s = (x, s) := rfl

/-- On a part of the state a procedure does what it does on its own, and the part is written back
even when it is refused. -/
@[simp] theorem perform_within (part : σ → τ) (put : τ → σ → σ) (p : Procedure τ α) (s : σ) :
    (p.within part put).perform s = ((p.perform (part s)).1, put (p.perform (part s)).2 s) := rfl

/-- **A refusal ends a procedure, with whatever it has written by then.** -/
theorem perform_bind (p : Procedure σ α) (k : α → Procedure σ β) (s : σ) :
    (p >>= k).perform s =
      match p.perform s with
      | (.ok a, t) => (k a).perform t
      | (.error f, t) => (.error f, t) := by
  have h : (p >>= k).perform s =
      (ExceptT.bindCont k (p.perform s).1).run (p.perform s).2 := rfl
  rw [h]
  rcases p.perform s with ⟨f | a, t⟩ <;> rfl

/-- A step that answers is followed by the next one. -/
theorem perform_bind_ok {p : Procedure σ α} {k : α → Procedure σ β} {s t : σ} {a : α}
    (h : p.perform s = (.ok a, t)) : (p >>= k).perform s = (k a).perform t := by
  rw [perform_bind, h]

/-- Naming the answer keeps what was written. -/
@[simp] theorem perform_map (g : α → β) (p : Procedure σ α) (s : σ) :
    (g <$> p).perform s = ((p.perform s).1.map g, (p.perform s).2) := by
  rw [map_eq_pure_bind, perform_bind]
  rcases p.perform s with ⟨f | a, t⟩ <;> rfl

/-! ### Leaving no trace -/

/-- **A procedure that leaves no trace when it is refused.** Either it answers, and `Done` holds of
its answer and of the state it leaves, or it leaves the state it found, and `Refused` holds of the
refusal. -/
def Settled (p : Procedure σ α) (s : σ) (Done : α → σ → Prop) (Refused : Fault → Prop) : Prop :=
  match p.perform s with
  | (.ok a, t) => Done a t
  | (.error f, t) => t = s ∧ Refused f

namespace Settled

variable {p : Procedure σ α} {k : α → Procedure σ β} {s t : σ} {a : α} {f : Fault}
  {Done : α → σ → Prop} {Next : β → σ → Prop} {Refused : Fault → Prop}

/-- What is known of an answer. -/
theorem done (h : p.Settled s Done Refused) (e : p.perform s = (.ok a, t)) : Done a t := by
  simpa only [Settled, e] using h

/-- What is known of a refusal. -/
theorem refused (h : p.Settled s Done Refused) (e : p.perform s = (.error f, t)) :
    t = s ∧ Refused f := by
  simpa only [Settled, e] using h

/-- Either an answer or a refusal without a trace. -/
theorem cases (h : p.Settled s Done Refused) :
    (∃ a t, p.perform s = (.ok a, t) ∧ Done a t) ∨
      ∃ f, p.perform s = (.error f, s) ∧ Refused f := by
  rcases e : p.perform s with ⟨f | a, t⟩
  · obtain ⟨rfl, hf⟩ := h.refused e
    exact .inr ⟨f, rfl, hf⟩
  · exact .inl ⟨a, t, rfl, h.done e⟩

/-- A procedure that leaves no trace may be told of less. -/
theorem mono {Done' : α → σ → Prop} {Refused' : Fault → Prop} (h : p.Settled s Done Refused)
    (hd : ∀ a t, Done a t → Done' a t) (hr : ∀ f, Refused f → Refused' f) :
    p.Settled s Done' Refused' := by
  unfold Settled
  rcases h.cases with ⟨a, t, e, ha⟩ | ⟨f, e, hf⟩
  · rw [e]
    exact hd a t ha
  · rw [e]
    exact ⟨rfl, hr f hf⟩

/-- A procedure whose answer is known. -/
theorem of_ok (e : p.perform s = (.ok a, t)) (h : Done a t) : p.Settled s Done Refused := by
  simpa only [Settled, e] using h

/-- A refusal on the spot. -/
theorem throw (h : Refused f) : (throw f : Procedure σ α).Settled s Done Refused :=
  ⟨rfl, h⟩

/-- Reading writes nothing. -/
theorem get {k : σ → Procedure σ β} (h : (k s).Settled s Next Refused) :
    (MonadState.get >>= k : Procedure σ β).Settled s Next Refused := h

/-- A check may refuse as long as nothing was written. -/
theorem check {x : Except Fault α} (hf : ∀ f, x = .error f → Refused f)
    (ha : ∀ a, x = .ok a → (k a).Settled s Next Refused) :
    (liftM x >>= k : Procedure σ β).Settled s Next Refused := by
  unfold Settled
  rw [perform_bind, perform_check]
  cases x with
  | error f => exact ⟨rfl, hf f rfl⟩
  | ok a => exact ha a rfl

/-- A branch settles if both sides do. -/
theorem ite {c : Prop} [Decidable c] {q : Procedure σ α} (hp : c → p.Settled s Done Refused)
    (hq : ¬c → q.Settled s Done Refused) : (if c then p else q).Settled s Done Refused := by
  by_cases h : c
  · rw [if_pos h]
    exact hp h
  · rw [if_neg h]
    exact hq h

/-- A guard is a check of its own. -/
theorem guard {c : Prop} [Decidable c] {k : Unit → Procedure σ β} (hc : c → Refused f)
    (hk : ¬c → (k ()).Settled s Next Refused) :
    (if c then MonadExcept.throw f >>= k else k () : Procedure σ β).Settled s Next Refused :=
  .ite (fun h => ⟨rfl, hc h⟩) hk

/-- What follows a refusal does not matter. -/
theorem throw_bind {k : α → Procedure σ β} (h : Refused f) :
    (MonadExcept.throw f >>= k : Procedure σ β).Settled s Next Refused :=
  ⟨rfl, h⟩

/-- What follows a step that may have written must be certain to answer. -/
theorem bind (h : p.Settled s Done Refused)
    (hk : ∀ a t, Done a t → ∃ b u, (k a).perform t = (.ok b, u) ∧ Next b u) :
    (p >>= k).Settled s Next Refused := by
  rcases h.cases with ⟨a, t, e, hd⟩ | ⟨f, e, hf⟩
  · obtain ⟨b, u, e', hn⟩ := hk a t hd
    exact of_ok ((perform_bind_ok e).trans e') hn
  · unfold Settled
    rw [perform_bind, e]
    exact ⟨rfl, hf⟩

/-- Naming the answer changes nothing else. -/
theorem map {g : α → β} (h : p.Settled s (fun a => Next (g a)) Refused) :
    (g <$> p).Settled s Next Refused := by
  unfold Settled
  rw [perform_map]
  rcases h.cases with ⟨a, t, e, hn⟩ | ⟨f, e, hf⟩
  · rw [e]
    exact hn
  · rw [e]
    exact ⟨rfl, hf⟩

/-- A procedure on a part of the state, where writing back what was read changes nothing. -/
theorem within {part : τ → σ} {put : σ → τ → τ} {s : τ} (h : p.Settled (part s) Done Refused)
    (hput : put (part s) s = s) :
    (p.within part put).Settled s (fun a t => ∃ u, Done a u ∧ t = put u s) Refused := by
  unfold Settled
  rw [perform_within]
  rcases h.cases with ⟨a, t, e, hd⟩ | ⟨f, e, hf⟩
  · rw [e]
    exact ⟨t, hd, rfl⟩
  · rw [e]
    exact ⟨hput, hf⟩

end Settled
end Procedure
end TokenGovernance
