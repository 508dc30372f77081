/-
# The past is immutable

Balances and delegations are written by three calls, and each writes at the instant that it is told
and nowhere else. So a call made later than an instant changes nothing that is read of it
(`Engine.Answered.samePast`):

| reading of the earlier instant | after the call |
| --- | --- |
| the delegate of an account, and what is delegated to it | the same |
| balance and voting power of an account with a recorded balance | the same, whatever the host says |
| balance of an account without one | what the host says, or zero once one is recorded |

The last line is the one way in which the past changes. What the host says is what an account holds
now; it stands in for the past only as long as nothing of the account is recorded at all.
-/

import TokenGovernance.Proofs.Engine.Power
import TokenGovernance.Proofs.Timeline

namespace TokenGovernance

namespace Call

/-- The instant at which a call is made, for the calls that are told one. -/
def time? : Call → Option Timestamp
  | .recordBalance _ _ now | .delegate _ _ now | .undelegate _ now | .create _ _ now
  | .cancel _ _ now | .vote _ _ _ _ now | .execute _ now => some now
  | .setUp .. | .setParameters .. => none

/-- Whether a call works on balances and delegations. -/
def movesPower : Call → Bool
  | .recordBalance .. | .delegate .. | .undelegate .. => true
  | _ => false

/-- A call that works on balances and delegations is told a time. -/
theorem exists_time_of_movesPower {c : Call} (h : c.movesPower = true) :
    ∃ now, c.time? = some now := by
  cases c with
  | recordBalance | delegate | undelegate => exact ⟨_, rfl⟩
  | _ => cases h

end Call

namespace State

variable {s s' s'' : State} {a : Account} {time : Timestamp} {host : Host}

/-- An account without a recorded balance holds what the host says. -/
theorem balanceAt_of_unknown (hnot : s.held.hasHistory a = false) (host : Host)
    (time : Timestamp) : s.balanceAt host a time = host.balance a := by
  rw [balanceAt, Ledger.lookup_eq_noHistory_iff.2 hnot]

/-- The balance of an account with a record is read off the record alone. -/
theorem balanceAt_of_known (hk : s.held.hasHistory a = true) (host : Host) (time : Timestamp) :
    s.balanceAt host a time = s.held.valueAt a time := by
  have hne : s.held.lookup a time ≠ .noHistory := by
    rw [Ne, Ledger.lookup_eq_noHistory_iff, hk]
    exact Bool.noConfusion
  unfold balanceAt Ledger.valueAt
  rcases hl : s.held.lookup a time with balance | _ | _
  · rfl
  · rfl
  · exact absurd hl hne

/-- **A state that was changed only after an instant tells of it what it told.** -/
structure SamePast (s s' : State) (time : Timestamp) : Prop where
  held : s.held.SamePast s'.held time
  delegation : s.delegation.SamePast s'.delegation time

namespace SamePast

/-- Every state has its own past. -/
theorem refl (s : State) (time : Timestamp) : s.SamePast s time :=
  ⟨.refl _ _, .refl _ _⟩

/-- The past is kept over several changes. -/
theorem trans (h : s.SamePast s' time) (h' : s'.SamePast s'' time) : s.SamePast s'' time :=
  ⟨h.held.trans h'.held, h.delegation.trans h'.delegation⟩

/-- A recorded balance stays as it is, whatever the hosts say. -/
theorem balanceAt_eq (h : s.SamePast s' time) (hk : s.held.hasHistory a = true)
    (before after : Host) : s'.balanceAt after a time = s.balanceAt before a time := by
  rw [balanceAt_of_known hk, balanceAt_of_known (h.held.hasHistory hk), h.held.valueAt_eq]

/-- An account that begins later held nothing. -/
theorem balanceAt_eq_ite (h : s.SamePast s' time) (hnot : s.held.hasHistory a = false)
    (after : Host) : s'.balanceAt after a time =
      if s'.held.hasHistory a then .zero else after.balance a := by
  cases hk : s'.held.hasHistory a with
  | true =>
    rw [if_pos rfl, balanceAt, h.held.first a hnot hk]
  | false =>
    rw [if_neg Bool.false_ne_true]
    exact balanceAt_of_unknown hk after time

/-- The voting power of an account with a recorded balance stays as it is. -/
theorem votingPowerAt_eq (h : s.SamePast s' time) (hk : s.held.hasHistory a = true)
    (before after : Host) : s'.votingPowerAt after a time = s.votingPowerAt before a time := by
  unfold votingPowerAt delegatedPowerAt
  simp only [h.delegation.delegateAt, h.delegation.delegatedPowerAt, h.balanceAt_eq hk before after]

end SamePast
end State

namespace Engine

variable {host : Host} {e e' : Engine} {c : Call} {answer : Answer} {time : Timestamp}

/-- An answered call keeps the histories of delegation in order. -/
theorem Answered.dated (h : Answered host e c answer e') (hd : e.state.delegation.Dated) :
    e'.state.delegation.Dated := by
  induction h with
  | recordBalance _ carries => exact hd.carries carries
  | moveDelegate _ movable => exact hd.redelegated movable
  | undelegate _ ih => exact ih
  | _ => exact hd

/-- **The histories of a reachable engine are in order and end with the current delegates.** -/
theorem Reachable.dated (h : e.Reachable) : e.state.delegation.Dated :=
  h.invariant (P := fun e => e.state.delegation.Dated) Directory.dated_empty
    fun _ _ _ _ _ h hd => h.dated hd

/-- A call on anything else leaves balances and delegations alone. -/
theorem Answered.ledgers_eq (h : Answered host e c answer e') (other : c.movesPower = false) :
    e'.state.held = e.state.held ∧ e'.state.delegation = e.state.delegation := by
  cases h with
  | recordBalance | keepDelegate | moveDelegate | undelegate => cases other
  | _ => exact ⟨rfl, rfl⟩

/-- **A call made later than an instant changes nothing that is read of it.** A change of delegate
records the balance of the delegator only if there was none. -/
theorem Answered.samePast (h : Answered host e c answer e') (ho : e.state.held.Ordered)
    (hd : e.state.delegation.Dated)
    (late : c.movesPower = true → ∀ now ∈ c.time?, time < now) :
    e.state.SamePast e'.state time := by
  induction h with
  | recordBalance order carries =>
    have ht := late rfl _ rfl
    exact ⟨ho.samePast_put order ht _, hd.samePast_carries carries ht⟩
  | moveDelegate order movable =>
    have ht := late rfl _ rfl
    refine ⟨?_, hd.samePast_redelegated movable ht⟩
    simp only
    split
    · exact .refl _ _
    · exact ho.samePast_put order ht _
  | undelegate _ ih => exact ih late
  | _ => exact ⟨.refl _ _, .refl _ _⟩

end Engine

namespace Turn

variable {t : Turn} {time : Timestamp}

/-- A turn whose call is on anything else, answered or refused, leaves balances and delegations
alone. -/
theorem ledgers_eq (t : Turn) (other : t.call.movesPower = false) :
    t.after.state.held = t.before.state.held ∧
      t.after.state.delegation = t.before.state.delegation := by
  rcases t.answered_or_refused with ⟨answer, -, ha⟩ | ⟨f, -, hkept, -⟩
  · exact ha.ledgers_eq other
  · rw [hkept]
    exact ⟨rfl, rfl⟩

/-- A turn later than an instant, answered or refused, changes nothing that is read of it. -/
theorem samePast (hr : t.before.Reachable)
    (late : t.call.movesPower = true → ∀ now ∈ t.call.time?, time < now) :
    t.before.state.SamePast t.after.state time := by
  rcases t.answered_or_refused with ⟨answer, -, ha⟩ | ⟨f, -, hkept, -⟩
  · exact ha.samePast hr.backed.ordered hr.dated late
  · rw [hkept]
    exact .refl _ _

end Turn

namespace Engine

variable {e : Engine} {time : Timestamp}

/-- **The past is immutable.** A call told a later instant changes none of the delegates, powers
and balances of an earlier one, except that an account that gets its first recorded balance held
nothing before it; and the calls on anything but balances and delegations change none at all. -/
theorem Reachable.past_immutable (h : e.Reachable) (host : Host) (c : Call) :
    let s := e.state
    let s' := (Turn.mk e host c).after.state
    (∀ now time, c.time? = some now → time < now → ∀ a,
      s'.delegation.delegateAt a time = s.delegation.delegateAt a time ∧
      s'.delegatedPowerAt a time = s.delegatedPowerAt a time ∧
      (s.held.hasHistory a = true → ∀ before after : Host,
        s'.balanceAt after a time = s.balanceAt before a time ∧
        s'.votingPowerAt after a time = s.votingPowerAt before a time) ∧
      (s.held.hasHistory a = false → ∀ after : Host, s'.balanceAt after a time =
        if s'.held.hasHistory a then .zero else after.balance a)) ∧
    (c.movesPower = false → ∀ a time,
      s'.delegation.delegateAt a time = s.delegation.delegateAt a time ∧
      s'.delegatedPowerAt a time = s.delegatedPowerAt a time ∧
      ∀ host : Host, s'.balanceAt host a time = s.balanceAt host a time ∧
        s'.votingPowerAt host a time = s.votingPowerAt host a time) := by
  intro s s'
  constructor
  · intro now time hnow ht a
    have hpast : s.SamePast s' time := by
      refine Turn.samePast (t := ⟨e, host, c⟩) h fun _ now' hnow' => ?_
      rw [hnow] at hnow'
      cases hnow'
      exact ht
    exact ⟨hpast.delegation.delegateAt a, hpast.delegation.delegatedPowerAt a,
      fun hk before after =>
        ⟨hpast.balanceAt_eq hk before after, hpast.votingPowerAt_eq hk before after⟩,
      fun hnot after => hpast.balanceAt_eq_ite hnot after⟩
  · intro other a time
    obtain ⟨hheld, hdelegation⟩ := (Turn.mk e host c).ledgers_eq other
    simp only [State.votingPowerAt, State.delegatedPowerAt, State.balanceAt, s, s', hheld,
      hdelegation, and_self, implies_true]

/-- A larger balance of a delegator leaves the voting power of the instant before. -/
theorem past_immutable_of_delegator :
    let alice : Account := ⟨"civ_alice", by decide⟩
    let foundation : Account := ⟨"civ_foundation", by decide⟩
    let host := Rehearsal.host { owner := foundation }
    let e := run {} [
      (host, .recordBalance alice ⟨5, by decide⟩ ⟨⟨1, by decide⟩⟩),
      (host, .delegate alice foundation ⟨⟨2, by decide⟩⟩)]
    let e' := (Turn.mk e host (.recordBalance alice ⟨9, by decide⟩ ⟨⟨4, by decide⟩⟩)).after
    (e'.state.votingPowerAt host alice ⟨⟨3, by decide⟩⟩).val = 5 ∧
      (e'.state.votingPowerAt host alice ⟨⟨4, by decide⟩⟩).val = 9 := by
  intro alice foundation host e e'
  have hreachable : e.Reachable := reachable_run _
  have hpast := (Reachable.past_immutable hreachable host
    (.recordBalance alice ⟨9, by decide⟩ ⟨⟨4, by decide⟩⟩)).1 _ ⟨⟨3, by decide⟩⟩ rfl
      (by decide) alice
  have hknown : e.state.held.hasHistory alice = true := by decide +kernel
  have hbefore : (e.state.votingPowerAt host alice ⟨⟨3, by decide⟩⟩).val = 5 := by decide +kernel
  refine ⟨?_, by decide +kernel⟩
  rw [(hpast.2.2.1 hknown host host).2, hbefore]

end Engine
end TokenGovernance
