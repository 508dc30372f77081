/-
# Delegated power after any run

Whatever calls were made, at whatever times and against whatever hosts, the power of every delegate
is the exact sum of what its followers hold (`Engine.backed_run`). So the checks that guard the
subtractions never bite: what a delegate loses is part of what it has.
-/

import TokenGovernance.Host.Rehearsal
import TokenGovernance.Proofs.Backing
import TokenGovernance.Proofs.Engine.Run

namespace TokenGovernance

/-- At an instant that a new balance would be accepted at, the balance is the last one recorded. -/
theorem State.balanceAt_eq_latestValue {s : State} {a : Account} {now : Timestamp}
    (ordered : (s.held.history a).Ordered) (order : (s.held.history a).Accepts now)
    (recorded : s.held.hasHistory a = true) (host : Host) :
    s.balanceAt host a now = s.held.latestValue a := by
  obtain ⟨last, hl⟩ := Ledger.hasHistory_iff.1 recorded
  unfold State.balanceAt Ledger.lookup Ledger.latestValue
  rw [ordered.lookup_latest hl (order last hl), hl]

namespace Engine

variable {host : Host} {e e' : Engine} {a d : Account} {now : Timestamp} {f : Fault}

/-- An answered call keeps the power backed. -/
theorem Answered.backed {c : Call} {answer : Answer} (h : Answered host e c answer e')
    (hb : e.state.delegation.Backed e.state.held) :
    e'.state.delegation.Backed e'.state.held := by
  induction h with
  | recordBalance order carries => exact hb.put order carries
  | @moveDelegate delegator target now order movable =>
    exact hb.redelegated order movable fun recorded =>
      State.balanceAt_eq_latestValue (hb.ordered delegator) order recorded host
  | undelegate _ ih => exact ih
  | _ => exact hb

/-- **The power of a reachable engine is backed.** -/
theorem Reachable.backed (h : e.Reachable) : e.state.delegation.Backed e.state.held :=
  h.invariant (P := fun e => e.state.delegation.Backed e.state.held) Directory.backed_empty
    fun _ _ _ _ _ h hb => h.backed hb

/-! ### Where an overflow can come from -/

/-- An amount out of range is no question of order. -/
theorem checkOrder_ne_overflow (l : Ledger) (a : Account) (now : Timestamp) :
    l.checkOrder a now ≠ .error .overflow := by
  intro h
  obtain ⟨last, -, -, hf⟩ := Ledger.checkOrder_eq_error_iff.1 h
  cases hf

/-- A balance overflows only when it grows and its delegate cannot hold the difference. -/
theorem Refused.overflow_recordBalance {balance : Amount}
    (h : Refused host e (.recordBalance a balance now) .overflow)
    (hb : e.state.delegation.Backed e.state.held) :
    e.state.held.latestValue a < balance ∧
      1 <<< 128 ≤
        (e.state.delegation.power.latestValue (e.state.delegation.currentDelegate a)).val +
          (balance.val - (e.state.held.latestValue a).val) := by
  cases h with
  | balanceOrder late => exact absurd late (checkOrder_ne_overflow _ _ _)
  | carry order refused =>
    cases refused with
    | full delegating grows full => exact ⟨grows, full⟩
    | short delegating shrinks short =>
      have hle := hb.le_power delegating
      omega
    | order delegating differs late => exact absurd late (checkOrder_ne_overflow _ _ _)

/-- A change of delegate overflows only when the new delegate cannot hold the balance. What is taken
from the old one is the recorded balance, which is part of its power. -/
theorem Refused.overflow_delegate {target : Account}
    (h : Refused host e (.delegate a target now) .overflow)
    (hb : e.state.delegation.Backed e.state.held) :
    target ≠ a ∧ 1 <<< 128 ≤ (e.state.delegation.power.latestValue target).val +
      (e.state.balanceAt host a now).val := by
  cases h with
  | delegatorOrder late => exact absurd late (checkOrder_ne_overflow _ _ _)
  | move order refused =>
    cases refused with
    | debit delegating short =>
      have hle := hb.le_power delegating
      rw [State.balanceAt_eq_latestValue (hb.ordered a) order (hb.known a delegating)] at short
      omega
    | credit other full => exact ⟨other, full⟩
    | order late =>
      obtain ⟨_, _, hf⟩ := Directory.checkOrder_eq_error late
      cases hf

/-! ### The whole law -/

/-- **The power of every delegate is the exact sum of what its followers hold.** So nobody is kept
from returning to itself, a change of delegate overflows only where the new delegate cannot hold
the balance, and a balance that does not grow never overflows. -/
theorem Reachable.power_eq_sum_held (h : e.Reachable) :
    (∀ a x, a ∈ e.state.delegation.followers x ↔
      a ≠ x ∧ e.state.delegation.currentDelegate a = x) ∧
    (∀ x, (e.state.delegation.power.latestValue x).val =
      ∑ a ∈ e.state.delegation.followers x, (e.state.held.latestValue a).val) ∧
    (∀ host a now, (Turn.mk e host (.undelegate a now)).answer ≠ .error .overflow) ∧
    (∀ host a target now, (Turn.mk e host (.delegate a target now)).answer = .error .overflow →
      target ≠ a ∧ 2 ^ 128 ≤ (e.state.delegation.power.latestValue target).val +
        (e.state.balanceAt host a now).val) ∧
    ∀ host a balance now, balance ≤ e.state.held.latestValue a →
      (Turn.mk e host (.recordBalance a balance now)).answer ≠ .error .overflow := by
  have hb := h.backed
  refine ⟨fun _ _ => Directory.mem_followers, hb.exact, fun host a now hf => ?_,
    fun host a target now hf => ?_, fun host a balance now hle hf => ?_⟩
  · cases Turn.refused hf with
    | undelegate refused => exact (refused.overflow_delegate hb).1 rfl
  · rw [← Nat.one_shiftLeft]
    exact (Turn.refused hf).overflow_delegate hb
  · exact Quantity.not_lt.2 hle ((Turn.refused hf).overflow_recordBalance hb).1

/-- A balance that shrinks after it was delegated shrinks the power of the delegate. -/
theorem power_eq_sum_held_of_two :
    let alice : Account := ⟨"civ_alice", by decide⟩
    let foundation : Account := ⟨"civ_foundation", by decide⟩
    let held : AccountMap Amount := (∅ : AccountMap Amount).insert alice ⟨5, by decide⟩
    let host := Rehearsal.host { owner := foundation, balances := held }
    let e := run {} [
      (host, .delegate alice foundation ⟨⟨1, by decide⟩⟩),
      (host, .recordBalance alice ⟨3, by decide⟩ ⟨⟨2, by decide⟩⟩)]
    alice ∈ e.state.delegation.followers foundation ∧
      ∑ a ∈ e.state.delegation.followers foundation, (e.state.held.latestValue a).val = 3 ∧
      (Turn.mk e host (.undelegate alice ⟨⟨3, by decide⟩⟩)).answer ≠ .error .overflow := by
  intro alice foundation held host e
  have hreachable : e.Reachable := reachable_run _
  obtain ⟨hfollowers, hsum, hreturn, -⟩ := Reachable.power_eq_sum_held hreachable
  have hpower : (e.state.delegation.power.latestValue foundation).val = 3 := by decide +kernel
  have hdelegate : alice ≠ foundation ∧ e.state.delegation.currentDelegate alice = foundation := by
    decide +kernel
  exact ⟨(hfollowers alice foundation).2 hdelegate, (hsum foundation).symm.trans hpower,
    hreturn host alice _⟩

end Engine
end TokenGovernance
