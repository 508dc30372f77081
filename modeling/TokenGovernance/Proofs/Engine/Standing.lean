/-
# Whom a call concerns

A call that records a balance or changes a delegate is about one account (`Call.mover?`), and what
it writes falls into two parts:

| written | of whom |
| --- | --- |
| balances, record and history of delegates | of the account alone |
| power | of its delegate before and after, if that is another account |

Both are told from the tables of the first kind that the account has before
(`Engine.Answered.standing_congr`, `State.touches_congr`). So the call of one account leaves what is
recorded of all others (`Engine.Answered.standing_of_ne`) and the power of everybody whom the
account does not delegate to (`Engine.Answered.power_touched`). The voting power of an account that
votes for itself is read off its own balances, and that of a delegating account off the power of its
delegate, which tells whose calls can change either (`Engine.votingPower_of_others`).
-/

import TokenGovernance.Host.Rehearsal
import TokenGovernance.Proofs.Engine.Past
import TokenGovernance.Proofs.Instant

namespace TokenGovernance

/-- The account whose balance or delegate a call sets. -/
def Call.mover? : Call → Option Account
  | .recordBalance account _ _ => some account
  | .delegate delegator _ _ | .undelegate delegator _ => some delegator
  | _ => none

/-- The calls on balances and delegations are those that move an account. -/
theorem Call.movesPower_eq_isSome (c : Call) : c.movesPower = c.mover?.isSome := by
  cases c <;> rfl

/-- **What is recorded of an account itself**: what it held, and who its delegates were. -/
structure Standing where
  held : Option (History Amount)
  delegation : Option Delegation
  delegates : Option (History Account)

namespace State

variable {s t : State} {a x : Account}

/-- What is recorded of an account itself. -/
def standing (s : State) (a : Account) : Standing where
  held := s.held.series[a]?
  delegation := s.delegation.records[a]?
  delegates := s.delegation.histories[a]?

/-- What is known apart from balances and delegations. -/
def registry (s : State) : State := { s with held := {}, delegation := {} }

/-- A state is its registry, its balances and its delegations. -/
theorem eq_of_registry (h : s.registry = t.registry) (held : s.held = t.held)
    (delegation : s.delegation = t.delegation) : s = t := by
  have hs : s = { s.registry with held := s.held, delegation := s.delegation } := rfl
  rw [hs, h, held, delegation]
  rfl

/-! ### Read off the standing -/

/-- What an account held over time is a part of its standing. -/
theorem held_history_congr (h : s.standing a = t.standing a) :
    s.held.history a = t.held.history a := by
  have hheld : s.held.series[a]? = t.held.series[a]? := congrArg Standing.held h
  rw [Ledger.history, hheld, Ledger.history]

/-- The current delegate of an account is read off its standing. -/
theorem currentDelegate_congr (h : s.standing a = t.standing a) :
    s.delegation.currentDelegate a = t.delegation.currentDelegate a := by
  have hrecord : s.delegation.records[a]? = t.delegation.records[a]? :=
    congrArg Standing.delegation h
  rw [Directory.currentDelegate, hrecord, Directory.currentDelegate]

/-- The history of the delegates of an account is a part of its standing. -/
theorem delegates_congr (h : s.standing a = t.standing a) :
    s.delegation.history a = t.delegation.history a := by
  have hhistory : s.delegation.histories[a]? = t.delegation.histories[a]? :=
    congrArg Standing.delegates h
  rw [Directory.history, hhistory, Directory.history]

/-- The last amount of an account is read off its standing. -/
theorem latestValue_congr (h : s.standing a = t.standing a) :
    s.held.latestValue a = t.held.latestValue a := by
  rw [Ledger.latestValue, held_history_congr h, Ledger.latestValue]

/-- Whether an account has a recorded balance is read off its standing. -/
theorem hasHistory_congr (h : s.standing a = t.standing a) :
    s.held.hasHistory a = t.held.hasHistory a := by
  rw [Ledger.hasHistory, Ledger.checkpoints, held_history_congr h]
  rfl

/-- What an account held at an instant is read off its standing, or off the host where nothing is
recorded. -/
theorem balanceAt_congr (h : s.standing a = t.standing a) (host : Host) (time : Timestamp) :
    s.balanceAt host a time = t.balanceAt host a time := by
  rw [balanceAt, Ledger.lookup, held_history_congr h]
  rfl

/-- The delegate of an account at an instant is read off its standing. -/
theorem delegateAt_congr (h : s.standing a = t.standing a) (time : Timestamp) :
    s.delegation.delegateAt a time = t.delegation.delegateAt a time := by
  rw [Directory.delegateAt, delegates_congr h, Directory.delegateAt]

/-! ### Whose power a call writes -/

/-- Whether making `target` the delegate of `a` writes to the power of `x`. -/
def redirects (s : State) (a target x : Account) : Prop :=
  s.delegation.currentDelegate a ≠ target ∧ x ≠ a ∧
    (s.delegation.currentDelegate a = x ∨ target = x)

/-- Whether a call writes to the power of `x`. -/
def touches (s : State) : Call → Account → Prop
  | .recordBalance a balance _, x =>
    x ≠ a ∧ s.held.latestValue a ≠ balance ∧ s.delegation.currentDelegate a = x
  | .delegate a target _, x => s.redirects a target x
  | .undelegate a _, x => s.redirects a a x
  | _, _ => False

/-- **Whose power a call writes is told from what is recorded of its account.** -/
theorem touches_congr {c : Call} (mover : c.mover? = some a) (h : s.standing a = t.standing a)
    (x : Account) : s.touches c x ↔ t.touches c x := by
  have hcurrent := currentDelegate_congr h
  have hlatest := latestValue_congr h
  cases c with
  | recordBalance | delegate | undelegate =>
    cases mover
    simp only [touches, redirects, hcurrent, hlatest]
  | _ => cases mover

end State

namespace Engine

variable {host : Host} {e e' f f' : Engine} {c : Call} {answer answer' : Answer} {a d x : Account}
  {now : Timestamp}

/-! ### What a call of one account does -/

/-- A call about one account leaves what is recorded of the others. -/
theorem Answered.standing_of_ne (h : Answered host e c answer e') (other : c.mover? ≠ some a) :
    e'.state.standing a = e.state.standing a := by
  induction h with
  | @recordBalance account balance now delegation order carries =>
    have hne : account ≠ a := fun hx => other (congrArg some hx)
    have hdirectory : delegation.records = e.state.delegation.records ∧
        delegation.histories = e.state.delegation.histories := by
      cases carries <;> exact ⟨rfl, rfl⟩
    simp only [State.standing, Ledger.series_put, if_neg hne, hdirectory]
  | @moveDelegate delegator target now order movable =>
    have hne : delegator ≠ a := fun hx => other (congrArg some hx)
    simp only [State.standing, Directory.redelegated, SortedMap.getElem?_insert, if_neg hne]
    split
    · rfl
    · rw [Ledger.series_put, if_neg hne]
  | undelegate _ ih => exact ih other
  | _ => rfl

/-- **What a call records of its account is told from what was recorded of it**, as is what the
call announces. -/
theorem Answered.standing_congr (h : Answered host e c answer e')
    (h' : Answered host f c answer' f') (mover : c.mover? = some a)
    (same : e.state.standing a = f.state.standing a) :
    e'.state.standing a = f'.state.standing a ∧
      ∃ log, e'.events = e.events ++ log ∧ f'.events = f.events ++ log := by
  have hcurrent := State.currentDelegate_congr same
  induction h generalizing answer' f' with
  | @recordBalance account balance now delegation order carries =>
    cases mover
    cases h' with
    | @recordBalance _ _ _ delegation' order' carries' =>
      have hrecords : delegation.records = e.state.delegation.records ∧
          delegation.histories = e.state.delegation.histories := by
        cases carries <;> exact ⟨rfl, rfl⟩
      have hrecords' : delegation'.records = f.state.delegation.records ∧
          delegation'.histories = f.state.delegation.histories := by
        cases carries' <;> exact ⟨rfl, rfl⟩
      refine ⟨?_, [], (List.append_nil _).symm, (List.append_nil _).symm⟩
      obtain ⟨-, hrecord, hhistory⟩ := Standing.mk.inj same
      simp only [State.standing, Ledger.series_put, if_true, State.held_history_congr same,
        hrecords, hrecords', hrecord, hhistory]
  | keepDelegate order keeps =>
    cases mover
    cases h' with
    | keepDelegate => exact ⟨same, [], (List.append_nil _).symm, (List.append_nil _).symm⟩
    | moveDelegate order' movable' => exact absurd (hcurrent.symm.trans keeps) movable'.changes
  | @moveDelegate delegator target now order movable =>
    cases mover
    cases h' with
    | keepDelegate order' keeps' => exact absurd (hcurrent.trans keeps') movable.changes
    | moveDelegate order' movable' =>
      refine ⟨?_, _, rfl, by rw [hcurrent]⟩
      have hheld := State.held_history_congr same
      have hbalance := State.balanceAt_congr same host now
      obtain ⟨hseries, -, -⟩ := Standing.mk.inj same
      simp only [State.standing, Directory.redelegated, SortedMap.getElem?_insert, if_true,
        State.hasHistory_congr same, State.delegates_congr same, Standing.mk.injEq, and_true]
      split
      · exact hseries
      · rw [Ledger.series_put, Ledger.series_put, if_pos rfl, if_pos rfl, hheld, hbalance]
  | undelegate _ ih =>
    cases h' with
    | undelegate answered' => exact ih answered' mover
  | _ => cases mover

/-- A call about one account changes balances and delegations alone, and carries nothing out. -/
theorem Answered.registry_eq (h : Answered host e c answer e') (mover : c.mover? = some a) :
    e'.state.registry = e.state.registry ∧ e'.invocations = e.invocations := by
  induction h with
  | recordBalance | keepDelegate | moveDelegate => exact ⟨rfl, rfl⟩
  | undelegate _ ih => exact ih mover
  | _ => cases mover

/-- **A call at an instant writes power exactly where it says.** -/
theorem Answered.power_touched (h : Answered host e c answer e') (mover : c.mover? = some a)
    (time : c.time? = some now) :
    e.state.delegation.power.Touched e'.state.delegation.power (e.state.touches c) now := by
  induction h with
  | recordBalance _ carries =>
    cases time
    exact carries.touched
  | keepDelegate _ same => exact .refl fun x hx => hx.1 same
  | moveDelegate _ movable =>
    cases time
    refine movable.touched.congr fun x => ?_
    exact ⟨fun hx => ⟨movable.changes, hx⟩, fun hx => hx.2⟩
  | undelegate _ ih => exact ih mover time
  | _ => cases mover

/-- Whoever's power is written was the delegate of the account before the call, or is after it. -/
theorem Answered.delegate_of_touches (h : Answered host e c answer e') (mover : c.mover? = some a)
    (touched : e.state.touches c x) :
    x ≠ a ∧ (e.state.delegation.currentDelegate a = x ∨
      e'.state.delegation.currentDelegate a = x) := by
  induction h with
  | recordBalance =>
    cases mover
    exact ⟨touched.1, .inl touched.2.2⟩
  | keepDelegate _ same => exact absurd same touched.1
  | moveDelegate =>
    cases mover
    obtain ⟨-, hne, hx⟩ := touched
    rw [Directory.currentDelegate_redelegated_self]
    exact ⟨hne, hx⟩
  | undelegate _ ih => exact ih mover touched
  | _ => cases mover

end Engine

namespace Turn

variable {t : Turn} {a x : Account}

/-- A turn about other accounts leaves what is recorded of an account. -/
theorem standing_of_ne (other : t.call.mover? ≠ some a) :
    t.after.state.standing a = t.before.state.standing a := by
  rcases t.answered_or_refused with ⟨answer, -, ha⟩ | ⟨f, -, hkept, -⟩
  · exact ha.standing_of_ne other
  · rw [hkept]

/-- **Power changes only through an account that delegates**, before its turn or after it, to
somebody else. -/
theorem mover_of_power_ne
    (changed : t.after.state.delegation.power.history x ≠
      t.before.state.delegation.power.history x) :
    ∃ a, t.call.mover? = some a ∧ x ≠ a ∧ (t.before.state.delegation.currentDelegate a = x ∨
      t.after.state.delegation.currentDelegate a = x) := by
  rcases t.answered_or_refused with ⟨answer, -, ha⟩ | ⟨f, -, hkept, -⟩
  · rcases hmover : t.call.mover? with _ | a
    · have other : t.call.movesPower = false := by
        rw [Call.movesPower_eq_isSome, hmover]
        rfl
      rw [(ha.ledgers_eq other).2] at changed
      exact absurd rfl changed
    · have moves : t.call.movesPower = true := by
        rw [Call.movesPower_eq_isSome, hmover]
        rfl
      obtain ⟨now, htime⟩ := Call.exists_time_of_movesPower moves
      have htouched : t.before.state.touches t.call x := by
        by_contra hnot
        exact changed ((ha.power_touched hmover htime).history_eq_of_not hnot)
      exact ⟨a, rfl, ha.delegate_of_touches hmover htouched⟩
  · rw [hkept] at changed
    exact absurd rfl changed

end Turn

namespace Engine

/-- **Nobody else touches the power of an account that votes for itself.** Whatever call is made
that is not about the balance or the delegate of an account, and at whatever instant is asked, the
delegate that the account had then is the same after the call. If that is the account itself, its
voting power is the same as well; and if it is another account, the voting power changes only
through a call about the balance or the delegate of an account that delegates to this delegate just
before or just after the call, and that is not the delegate itself. -/
theorem votingPower_of_others (e : Engine) (host : Host) (c : Call) (a : Account)
    (other : c.mover? ≠ some a) (reader : Host) (time : Timestamp) :
    let s := e.state
    let s' := (Turn.mk e host c).after.state
    s'.delegation.delegateAt a time = s.delegation.delegateAt a time ∧
    (s.delegation.delegateAt a time = a →
      s'.votingPowerAt reader a time = s.votingPowerAt reader a time) ∧
    ∀ d, d ≠ a → s.delegation.delegateAt a time = d →
      s'.votingPowerAt reader a time ≠ s.votingPowerAt reader a time →
      ∃ x, c.mover? = some x ∧ x ≠ d ∧
        (s.delegation.currentDelegate x = d ∨ s'.delegation.currentDelegate x = d) := by
  intro s s'
  have hstanding : s'.standing a = s.standing a :=
    Turn.standing_of_ne (t := ⟨e, host, c⟩) other
  have hdelegate := State.delegateAt_congr hstanding time
  refine ⟨hdelegate, fun hself => ?_, fun d hne hd hchanged => ?_⟩
  · rw [State.votingPowerAt, State.votingPowerAt]
    simp only [hdelegate, hself, if_true]
    exact State.balanceAt_congr hstanding reader time
  · have hpower : s'.delegation.power.history d ≠ s.delegation.power.history d := by
      intro hsame
      refine hchanged ?_
      rw [State.votingPowerAt, State.votingPowerAt]
      simp only [hdelegate, hd, if_neg hne, State.delegatedPowerAt, Directory.delegatedPowerAt,
        Ledger.valueAt, Ledger.lookup, hsame]
    obtain ⟨x, hmover, hdx, hcurrent⟩ := Turn.mover_of_power_ne (t := ⟨e, host, c⟩) hpower
    exact ⟨x, hmover, Ne.symm hdx, hcurrent⟩

/-- An account leaves one delegate for another. The new one votes with what it holds itself as
before, and who stays with the old one has less power. -/
theorem votingPower_of_others_of_move :
    let alice : Account := ⟨"civ_alice", by decide⟩
    let bob : Account := ⟨"civ_bob", by decide⟩
    let carol : Account := ⟨"civ_carol", by decide⟩
    let foundation : Account := ⟨"civ_foundation", by decide⟩
    let host := Rehearsal.host { owner := foundation }
    let e := run {} [
      (host, .recordBalance alice ⟨5, by decide⟩ ⟨⟨1, by decide⟩⟩),
      (host, .recordBalance bob ⟨7, by decide⟩ ⟨⟨1, by decide⟩⟩),
      (host, .delegate bob foundation ⟨⟨1, by decide⟩⟩),
      (host, .delegate carol foundation ⟨⟨1, by decide⟩⟩)]
    let now : Timestamp := ⟨⟨2, by decide⟩⟩
    let e' := (Turn.mk e host (.delegate bob alice now)).after
    (e'.state.votingPowerAt host alice now).val = 5 ∧
      (e.state.votingPowerAt host carol now).val = 7 ∧
      (e'.state.votingPowerAt host carol now).val = 0 ∧
      ∃ x, Call.mover? (.delegate bob alice now) = some x ∧ x ≠ foundation ∧
        (e.state.delegation.currentDelegate x = foundation ∨
          e'.state.delegation.currentDelegate x = foundation) := by
  intro alice bob carol foundation host e now e'
  have hpower : (e.state.votingPowerAt host alice now).val = 5 := by decide +kernel
  have hself : e.state.delegation.delegateAt alice now = alice := by decide +kernel
  have hcarol : e.state.delegation.delegateAt carol now = foundation := by decide +kernel
  have hbefore : (e.state.votingPowerAt host carol now).val = 7 := by decide +kernel
  have hafter : (e'.state.votingPowerAt host carol now).val = 0 := by decide +kernel
  have hne : e'.state.votingPowerAt host carol now ≠ e.state.votingPowerAt host carol now := by
    intro hsame
    rw [hsame] at hafter
    omega
  obtain ⟨-, hkept, -⟩ :=
    votingPower_of_others e host (.delegate bob alice now) alice (by decide) host now
  obtain ⟨-, -, hchanged⟩ :=
    votingPower_of_others e host (.delegate bob alice now) carol (by decide) host now
  exact ⟨by rw [hkept hself, hpower], hbefore, hafter,
    hchanged foundation (by decide) hcarol hne⟩

end Engine
end TokenGovernance
