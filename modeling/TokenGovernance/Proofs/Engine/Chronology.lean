/-
# Delegated power over time

In a run whose times never decrease, what is delegated to an account was at every instant the exact
sum of what its followers held at that instant (`Engine.Chronological.backedAt`), whichever changes
fell on the same instant and replaced one another.

The proof goes through the run call by call and splits time at the call. Before it nothing changes
(`State.BackedAt.of_samePast`). From it on nothing else is recorded, since no earlier call was told
a later time (`Engine.recordedBy_run`), so every reading is the current one, and for those the
power is backed after any run at all (`State.RecordedBy.backedAt`).
-/

import Mathlib.Data.List.Induction
import TokenGovernance.Proofs.Engine.Past

namespace TokenGovernance
namespace State

variable {s s' : State} {time now : Timestamp}

/-- Nothing is recorded later than `now`. -/
structure RecordedBy (s : State) (now : Timestamp) : Prop where
  held : ∀ a, (s.held.history a).Accepts now
  power : ∀ x, (s.delegation.power.history x).Accepts now
  delegates : ∀ a, (s.delegation.history a).Accepts now

/-- Nothing is recorded of an engine that was never called. -/
theorem recordedBy_empty (now : Timestamp) : ({} : State).RecordedBy now := by
  constructor <;> intro a last hl <;>
    simp [Ledger.history, Directory.history, History.latest?] at hl

/-- **What was delegated to an account at an instant is what its followers held then**, and all of
it was recorded by then. -/
structure BackedAt (s : State) (time : Timestamp) : Prop where
  known : ∀ a, s.delegation.delegateAt a time ≠ a →
    ∃ balance, s.held.lookup a time = .found balance
  exact : ∀ x, (s.delegatedPowerAt x time).val =
    ∑ a ∈ s.delegation.followersAt x time, (s.held.valueAt a time).val

namespace BackedAt

/-- A follower has a recorded balance. -/
theorem hasHistory {a x : Account} (h : s.BackedAt time)
    (ha : a ∈ s.delegation.followersAt x time) : s.held.hasHistory a = true := by
  obtain ⟨hne, hx⟩ := Directory.mem_followersAt.1 ha
  obtain ⟨balance, hfound⟩ := h.known a (by rw [hx]; exact Ne.symm hne)
  exact Ledger.hasHistory_of_lookup hfound

/-- What holds of an instant holds of it after later changes. -/
theorem of_samePast (h : s.BackedAt time) (hp : s.SamePast s' time) : s'.BackedAt time where
  known a ha := by
    rw [hp.delegation.delegateAt] at ha
    obtain ⟨balance, hfound⟩ := h.known a ha
    have hk : s.held.hasHistory a = true :=
      h.hasHistory (Directory.mem_followersAt.2 ⟨Ne.symm ha, rfl⟩)
    exact ⟨balance, by rw [hp.held.known a hk, hfound]⟩
  exact x := by
    rw [delegatedPowerAt, hp.delegation.delegatedPowerAt,
      Directory.followersAt_congr hp.delegation.delegateAt]
    exact (h.exact x).trans (Finset.sum_congr rfl fun a _ => by rw [hp.held.valueAt_eq])

end BackedAt

/-- **Once nothing is recorded any more, the power is backed.** -/
theorem RecordedBy.backedAt (h : s.RecordedBy now) (hb : s.delegation.Backed s.held)
    (hd : s.delegation.Dated) : s.BackedAt now where
  known a ha := by
    rw [hd.delegateAt_of_accepts (h.delegates a)] at ha
    exact ⟨_, Ledger.Ordered.lookup_of_accepts hb.ordered (h.held a) (hb.known a ha)⟩
  exact x := by
    rw [delegatedPowerAt, Directory.delegatedPowerAt, hd.power.valueAt_of_accepts (h.power x),
      hb.exact, hd.followersAt_of_accepts h.delegates]
    refine Finset.sum_congr rfl fun a _ => ?_
    rw [Ledger.Ordered.valueAt_of_accepts hb.ordered (h.held a)]

end State

namespace Engine

variable {host : Host} {e e' : Engine} {c : Call} {answer : Answer} {time now : Timestamp}
  {calls later : List (Host × Call)}

/-- A call writes at the instant that it is told. -/
theorem Answered.recordedBy (h : Answered host e c answer e') (hr : e.state.RecordedBy now)
    (past : ∀ told ∈ c.time?, told ≤ now) : e'.state.RecordedBy now := by
  induction h with
  | recordBalance order carries =>
    have ht := past _ rfl
    refine ⟨fun b => Ledger.accepts_put (hr.held b) ht _ _, ?_, fun b => ?_⟩
    · exact carries.power_induction (P := fun l => ∀ x, (l.history x).Accepts now) hr.power
        fun _ _ _ hl _ x => Ledger.accepts_put (hl x) ht _ _
    · rw [carries.history_eq]
      exact hr.delegates b
  | @moveDelegate delegator target told order movable =>
    have ht := past _ rfl
    refine ⟨fun b => ?_, ?_, fun b => ?_⟩
    · simp only
      split
      · exact hr.held b
      · exact Ledger.accepts_put (hr.held b) ht _ _
    · exact movable.power_induction (P := fun l => ∀ x, (l.history x).Accepts now) hr.power
        fun _ _ _ hl _ x => Ledger.accepts_put (hl x) ht _ _
    · by_cases hb : b = delegator
      · rw [hb, Directory.history_redelegated_self]
        exact History.accepts_put ht _ _
      · rw [Directory.history_redelegated_of_ne hb]
        exact hr.delegates b
  | undelegate _ ih => exact ih past
  | _ => exact ⟨hr.held, hr.power, hr.delegates⟩

/-! ### Runs in order of time -/

/-- The instants that the calls of a run are told. -/
def times (calls : List (Host × Call)) : List Timestamp := calls.filterMap fun turn => turn.2.time?

/-- The times of the calls never decrease. -/
def Chronological (calls : List (Host × Call)) : Prop := (times calls).Pairwise (· ≤ ·)

instance (calls : List (Host × Call)) : Decidable (Chronological calls) :=
  inferInstanceAs (Decidable ((times calls).Pairwise (· ≤ ·)))

/-- The times of a row of calls are those that its calls tell. -/
theorem mem_times : now ∈ times calls ↔ ∃ turn ∈ calls, turn.2.time? = some now :=
  List.mem_filterMap

/-- Two rows of calls are chronological one after the other when each is, and no time of the first
is later than one of the second. -/
theorem chronological_append : Chronological (calls ++ later) ↔
    Chronological calls ∧ Chronological later ∧ ∀ t ∈ times calls, ∀ u ∈ times later, t ≤ u := by
  unfold Chronological times
  rw [List.filterMap_append, List.pairwise_append]

/-- The last call of a row is a turn after the others. -/
theorem run_concat (e : Engine) (calls : List (Host × Call)) (host : Host) (c : Call) :
    e.run (calls ++ [(host, c)]) = (Turn.mk (e.run calls) host c).after :=
  run_append e calls [(host, c)]

/-- **A run records nothing later than the times that it is told**, in whatever order. -/
theorem recordedBy_run (calls : List (Host × Call)) (past : ∀ t ∈ times calls, t ≤ now) :
    (run {} calls).state.RecordedBy now := by
  induction calls using List.reverseRecOn with
  | nil => exact State.recordedBy_empty now
  | append_singleton calls turn ih =>
    obtain ⟨host, c⟩ := turn
    rw [times, List.filterMap_append] at past
    have hbefore := ih fun t ht => past t (List.mem_append_left _ ht)
    rw [run_concat]
    rcases (Turn.mk (run {} calls) host c).answered_or_refused with
      ⟨answer, -, ha⟩ | ⟨f, -, hkept, -⟩
    · refine ha.recordedBy hbefore fun told htold => past told (List.mem_append_right _ ?_)
      exact mem_times.2 ⟨_, List.mem_singleton_self _, htold⟩
    · rwa [hkept]

/-- **After a run in order of time the power was backed at every instant.** The last call was made
after the instant, and changes nothing of it, or at the instant or before, and then nothing is
recorded later than that. -/
theorem Chronological.backedAt (h : Chronological calls) (time : Timestamp) :
    (run {} calls).state.BackedAt time := by
  induction calls using List.reverseRecOn with
  | nil =>
    have hr := reachable_run []
    exact (State.recordedBy_empty time).backedAt hr.backed hr.dated
  | append_singleton calls turn ih =>
    obtain ⟨host, c⟩ := turn
    obtain ⟨hcalls, -, hlast⟩ := chronological_append.1 h
    by_cases hlate : c.movesPower = true → ∀ now ∈ c.time?, time < now
    · rw [run_concat]
      exact (ih hcalls).of_samePast (Turn.samePast (t := ⟨_, host, c⟩) (reachable_run calls) hlate)
    · push Not at hlate
      obtain ⟨-, now, hnow, hle⟩ := hlate
      have hr := reachable_run (calls ++ [(host, c)])
      refine (recordedBy_run _ fun t ht => ?_).backedAt hr.backed hr.dated
      have hnow' : now ≤ time := Timestamp.not_lt.1 hle
      rw [times, List.filterMap_append] at ht
      rcases List.mem_append.1 ht with ht | ht
      · exact Nat.le_trans (hlast t ht now (mem_times.2 ⟨_, List.mem_singleton_self _, hnow⟩)) hnow'
      · obtain ⟨turn, hturn, htold⟩ := mem_times.1 ht
        rw [List.mem_singleton.1 hturn, hnow] at htold
        cases htold
        exact hnow'

/-- **Delegated power is accounted for at every instant.** After a run in order of time, what was
delegated to an account at an instant, past, present or to come, is the exact sum of what the
accounts that then had it as their delegate held, each of them by its record. -/
theorem Chronological.delegatedPowerAt_eq_sum (h : Chronological calls) :
    let s := (run {} calls).state
    ∀ x time,
      (∀ a, a ∈ s.delegation.followersAt x time ↔ a ≠ x ∧ s.delegation.delegateAt a time = x) ∧
      (∀ host, (s.delegatedPowerAt x time).val =
        ∑ a ∈ s.delegation.followersAt x time, (s.balanceAt host a time).val) ∧
      ∀ a ∈ s.delegation.followersAt x time, ∃ balance, s.held.lookup a time = .found balance := by
  intro s x time
  have hb : s.BackedAt time := h.backedAt time
  refine ⟨fun a => Directory.mem_followersAt, fun host => (hb.exact x).trans ?_, fun a ha => ?_⟩
  · refine Finset.sum_congr rfl fun a ha => ?_
    rw [State.balanceAt_of_known (hb.hasHistory ha)]
  · obtain ⟨hne, hx⟩ := Directory.mem_followersAt.1 ha
    exact hb.known a (by rw [hx]; exact Ne.symm hne)

/-- Three changes at one instant, the last of which takes back part of what was delegated. -/
theorem delegatedPowerAt_eq_sum_of_three :
    let alice : Account := ⟨"civ_alice", by decide⟩
    let bob : Account := ⟨"civ_bob", by decide⟩
    let foundation : Account := ⟨"civ_foundation", by decide⟩
    let held : AccountMap Amount := (∅ : AccountMap Amount).insert bob ⟨4, by decide⟩
    let host := Rehearsal.host { owner := foundation, balances := held }
    let calls : List (Host × Call) := [
      (host, .recordBalance alice ⟨5, by decide⟩ ⟨⟨1, by decide⟩⟩),
      (host, .delegate alice foundation ⟨⟨2, by decide⟩⟩),
      (host, .delegate bob foundation ⟨⟨2, by decide⟩⟩),
      (host, .recordBalance alice ⟨3, by decide⟩ ⟨⟨2, by decide⟩⟩)]
    let s := (run {} calls).state
    ∑ a ∈ s.delegation.followersAt foundation ⟨⟨2, by decide⟩⟩,
        (s.balanceAt host a ⟨⟨2, by decide⟩⟩).val = 7 ∧
      s.delegation.followersAt foundation ⟨⟨1, by decide⟩⟩ = ∅ := by
  intro alice bob foundation held host calls s
  have hchronological : Chronological calls := by decide
  have hsum := hchronological.delegatedPowerAt_eq_sum foundation ⟨⟨2, by decide⟩⟩
  have hpower : (s.delegatedPowerAt foundation ⟨⟨2, by decide⟩⟩).val = 7 := by decide +kernel
  exact ⟨(hsum.2.1 host).symm.trans hpower, by decide +kernel⟩

end Engine
end TokenGovernance
