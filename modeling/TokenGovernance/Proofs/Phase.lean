/-
# The order of the phases

A proposal passes through its phases in one direction:

| phase | passes into |
| --- | --- |
| `pending` | `active`, `canceled` |
| `active` | `canceled`, `succeeded`, `defeated` |
| `succeeded` | `queued`, `executed` |
| `queued` | `executed`, `expired` |
| `canceled`, `defeated`, `expired`, `executed` | none |

Phases are not stored, so nothing has to happen to a proposal for its phase to change. Time alone
moves it along this order (`Proposal.phase_leads`).
-/

import Mathlib.Logic.Relation
import TokenGovernance.Proofs.Proposal

namespace TokenGovernance

namespace Phase

/-- The phases that a phase passes into. -/
def next : Phase → List Phase
  | pending => [active, canceled]
  | active => [canceled, succeeded, defeated]
  | succeeded => [queued, executed]
  | queued => [executed, expired]
  | canceled | defeated | expired | executed => []

/-- A phase is followed by another, at once or by way of others, or is the same. -/
def Leads : Phase → Phase → Prop := Relation.ReflTransGen fun a b => b ∈ a.next

namespace Leads

variable {a b c : Phase}

/-- A phase leads to itself. -/
theorem refl (a : Phase) : a.Leads a := Relation.ReflTransGen.refl

/-- What a phase leads to leads on. -/
theorem trans (h : a.Leads b) (h' : b.Leads c) : a.Leads c := Relation.ReflTransGen.trans h h'

/-- A phase leads to those it passes into. -/
theorem of_mem_next (h : b ∈ a.next) : a.Leads b := Relation.ReflTransGen.single h

/-- Everything but `pending` is still ahead of an active proposal. -/
theorem of_active (h : b ≠ pending) : active.Leads b := by
  have hsucceeded : active.Leads succeeded := of_mem_next (by decide)
  have hqueued : active.Leads queued := hsucceeded.trans (of_mem_next (by decide))
  cases b with
  | pending => exact absurd rfl h
  | active => exact .refl _
  | canceled | defeated => exact of_mem_next (by decide)
  | succeeded => exact hsucceeded
  | queued => exact hqueued
  | expired | executed => exact hqueued.trans (of_mem_next (by decide))

/-- Everything is still ahead of a pending proposal. -/
theorem of_pending (b : Phase) : pending.Leads b := by
  by_cases hb : b = pending
  · rw [hb]
    exact .refl _
  · exact (of_mem_next (by decide)).trans (of_active hb)

end Leads
end Phase

namespace Proposal

variable {p : Proposal} {now later : Timestamp} {parameters : Parameters}

/-- A vote that is over and won stays so. -/
theorem Passed.of_le (h : p.Passed now parameters) (hle : now ≤ later) :
    p.Passed later parameters :=
  { h with
    started := Nat.le_trans h.started hle
    closed := Nat.lt_of_lt_of_le h.closed hle }

/-- **Time moves a proposal along the order of the phases**, as long as the parameters stay. -/
theorem phase_leads (p : Proposal) (parameters : Parameters) (h : now ≤ later) :
    (p.phase now parameters).Leads (p.phase later parameters) := by
  rcases hphase : p.phase now parameters with _ | _ | _ | _ | _ | _ | _ | _
  case pending => exact .of_pending _
  case active =>
    refine .of_active fun hpending => ?_
    have hbefore := (phase_eq_pending_iff.1 hpending).2.2
    have hstarted := (phase_eq_active_iff.1 hphase).2.2.1
    exact Timestamp.not_lt.2 (Nat.le_trans hstarted h) hbefore
  case canceled =>
    rw [phase_eq_canceled_iff.2 (phase_eq_canceled_iff.1 hphase)]
    exact .refl _
  case executed =>
    rw [phase_eq_executed_iff.2 (phase_eq_executed_iff.1 hphase)]
    exact .refl _
  case defeated =>
    obtain ⟨hc, he, hstarted, hclosed, hlost⟩ := phase_eq_defeated_iff.1 hphase
    rw [phase_eq_defeated_iff.2 ⟨hc, he, Nat.le_trans hstarted h, Nat.lt_of_lt_of_le hclosed h,
      hlost⟩]
    exact .refl _
  case succeeded =>
    obtain ⟨hpassed, hunarmed⟩ := phase_eq_succeeded_iff.1 hphase
    rw [phase_eq_succeeded_iff.2 ⟨hpassed.of_le h, hunarmed⟩]
    exact .refl _
  case queued =>
    obtain ⟨hpassed, eta, harmed, -⟩ := phase_eq_queued_iff.1 hphase
    cases hexpired : eta.hasExpired parameters.executionDelay later with
    | true =>
      rw [phase_eq_expired_iff.2 ⟨hpassed.of_le h, eta, harmed, hexpired⟩]
      exact .of_mem_next (by decide)
    | false =>
      rw [phase_eq_queued_iff.2 ⟨hpassed.of_le h, eta, harmed, hexpired⟩]
      exact .refl _
  case expired =>
    obtain ⟨hpassed, eta, harmed, hexpired⟩ := phase_eq_expired_iff.1 hphase
    rw [phase_eq_expired_iff.2 ⟨hpassed.of_le h, eta, harmed,
      Timestamp.hasExpired_of_le h hexpired⟩]
    exact .refl _

end Proposal
end TokenGovernance
