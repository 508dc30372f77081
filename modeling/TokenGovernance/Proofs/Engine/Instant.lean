/-
# Calls of one instant

The calls on balances and delegations that are told the same instant write to the same checkpoints,
so they can be compared call by call:

| calls | outcome |
| --- | --- |
| one each of two accounts | either order leaves the same state (`Reachable.commute_of_instant`) |
| two of a kind of one account | read like the last one alone (`Reachable.last_of_instant`) |

Two accounts write to tables of their own, and where they share a delegate both orders leave the sum
of what its followers hold, recorded once. What one account does twice may leave a checkpoint that
the last call alone does not write. It repeats the value before it, so the states differ but no
query can tell (`State.ReadsLike`).
-/

import TokenGovernance.Host.Rehearsal
import TokenGovernance.Proofs.Engine.Agreement
import TokenGovernance.Proofs.Engine.Standing

namespace TokenGovernance

namespace State

variable {s t : State}

/-- States in which the same is recorded of every account, and the same power, have the same
balances and delegations. -/
theorem ledgers_eq_of_standing (h : ∀ a, s.standing a = t.standing a)
    (lists : s.delegation.delegators = t.delegation.delegators)
    (power : s.delegation.power = t.delegation.power) :
    s.held = t.held ∧ s.delegation = t.delegation := by
  have hheld : s.held = t.held := Ledger.ext fun a => congrArg Standing.held (h a)
  have hrecords : s.delegation.records = t.delegation.records :=
    Std.ExtTreeMap.ext_getElem? fun a => congrArg Standing.delegation (h a)
  have hhistories : s.delegation.histories = t.delegation.histories :=
    Std.ExtTreeMap.ext_getElem? fun a => congrArg Standing.delegates (h a)
  refine ⟨hheld, ?_⟩
  generalize s.delegation = d at *
  generalize t.delegation = d' at *
  obtain ⟨_, _, _, _⟩ := d
  obtain ⟨_, _, _, _⟩ := d'
  simp only at hrecords hhistories lists power
  rw [hrecords, hhistories, lists, power]

end State

namespace Engine

variable {host host' : Host} {c c' : Call} {a b : Account} {now : Timestamp}
  {e e₁ e₂ there back : Engine}

/-! ### Two accounts -/

/-- **Calls of two accounts that are answered in both orders**: `c` and then `c'` leads over `e₁` to
`there`, and `c'` and then `c` over `e₂` to `back`. -/
structure Swapped (host host' : Host) (c c' : Call) (a b : Account)
    (e e₁ there e₂ back : Engine) : Prop where
  ne : a ≠ b
  mover : c.mover? = some a
  mover' : c'.mover? = some b
  first : ∃ r, Answered host e c r e₁
  second : ∃ r, Answered host' e₁ c' r there
  first' : ∃ r, Answered host' e c' r e₂
  second' : ∃ r, Answered host e₂ c r back

namespace Swapped

/-- The two orders stand for each other. -/
theorem symm (h : Swapped host host' c c' a b e e₁ there e₂ back) :
    Swapped host' host c' c b a e e₂ back e₁ there :=
  ⟨h.ne.symm, h.mover', h.mover, h.first', h.second', h.first, h.second⟩

/-- The first account alone is moved by its call. -/
theorem mover_ne (h : Swapped host host' c c' a b e e₁ there e₂ back) {x : Account} (hx : x ≠ a) :
    c.mover? ≠ some x := by
  rw [h.mover]
  exact fun e => hx (Option.some.inj e).symm

/-- What is recorded and announced of an account does not depend on whether the other one is called
first. -/
theorem own (h : Swapped host host' c c' a b e e₁ there e₂ back) :
    there.state.standing a = back.state.standing a ∧
      ∃ log, e₁.events = e.events ++ log ∧ back.events = e₂.events ++ log := by
  obtain ⟨_, hfirst⟩ := h.first
  obtain ⟨_, hsecond⟩ := h.second
  obtain ⟨_, hfirst'⟩ := h.first'
  obtain ⟨_, hsecond'⟩ := h.second'
  have other : c'.mover? ≠ some a := h.symm.mover_ne h.ne
  have hbefore : e.state.standing a = e₂.state.standing a := (hfirst'.standing_of_ne other).symm
  obtain ⟨hafter, log, hlog, hlog'⟩ := hfirst.standing_congr hsecond' h.mover hbefore
  exact ⟨(hsecond.standing_of_ne other).trans hafter, log, hlog, hlog'⟩

/-- What is recorded of any account is the same after both orders. -/
theorem standing_eq (h : Swapped host host' c c' a b e e₁ there e₂ back) (x : Account) :
    there.state.standing x = back.state.standing x := by
  by_cases ha : x = a
  · rw [ha, h.own.1]
  by_cases hb : x = b
  · rw [hb, h.symm.own.1]
  · have hx : c.mover? ≠ some x := h.mover_ne ha
    have hx' : c'.mover? ≠ some x := h.symm.mover_ne hb
    obtain ⟨_, hfirst⟩ := h.first
    obtain ⟨_, hsecond⟩ := h.second
    obtain ⟨_, hfirst'⟩ := h.first'
    obtain ⟨_, hsecond'⟩ := h.second'
    rw [hsecond.standing_of_ne hx', hfirst.standing_of_ne hx, hsecond'.standing_of_ne hx,
      hfirst'.standing_of_ne hx']

/-- Whose power is written is told from the engine before both calls. -/
theorem touched (h : Swapped host host' c c' a b e e₁ there e₂ back) (time : c.time? = some now)
    (time' : c'.time? = some now) :
    e.state.delegation.power.Touched there.state.delegation.power
      (fun x => e.state.touches c x ∨ e.state.touches c' x) now := by
  obtain ⟨_, hfirst⟩ := h.first
  obtain ⟨_, hsecond⟩ := h.second
  have hkept : e₁.state.standing b = e.state.standing b :=
    hfirst.standing_of_ne (h.mover_ne h.ne.symm)
  have hpower := hsecond.power_touched h.mover' time'
  have hpower' := hpower.congr (State.touches_congr h.mover' hkept)
  exact (hfirst.power_touched h.mover time).trans hpower'

/-- Nothing else changes. -/
theorem registry_eq (h : Swapped host host' c c' a b e e₁ there e₂ back) :
    there.state.registry = e.state.registry ∧ there.invocations = e.invocations := by
  obtain ⟨_, hfirst⟩ := h.first
  obtain ⟨_, hsecond⟩ := h.second
  obtain ⟨hregistry, hinvoked⟩ := hfirst.registry_eq h.mover
  obtain ⟨hregistry', hinvoked'⟩ := hsecond.registry_eq h.mover'
  exact ⟨hregistry'.trans hregistry, hinvoked'.trans hinvoked⟩

/-- **Both orders lead to one state.** The same delegates were written to, and each has what its
followers hold. -/
theorem state_eq (h : Swapped host host' c c' a b e e₁ there e₂ back) (time : c.time? = some now)
    (time' : c'.time? = some now) (hthere : there.Reachable) (hback : back.Reachable) :
    there.state = back.state := by
  have hcurrent (x : Account) := State.currentDelegate_congr (h.standing_eq x)
  have hlatest (x : Account) := State.latestValue_congr (h.standing_eq x)
  have hlists := hthere.agrees.delegators_eq hback.agrees hcurrent
  have hpower : there.state.delegation.power = back.state.delegation.power := by
    refine (h.touched time time').ext ((h.symm.touched time' time).congr fun x => or_comm) ?_
    exact hthere.backed.latestValue_eq hback.backed hcurrent hlatest
  obtain ⟨hheld, hdelegation⟩ := State.ledgers_eq_of_standing h.standing_eq hlists hpower
  have hregistry := h.registry_eq.1.trans h.symm.registry_eq.1.symm
  exact State.eq_of_registry hregistry hheld hdelegation

end Swapped

/-- **The calls of two accounts at one instant can be made in either order.** If both are answered
in both orders, the state they leave is the same, checkpoints included; they carry nothing out, and
announce the same, each in its turn. -/
theorem Reachable.commute_of_instant (h : e.Reachable) (hne : a ≠ b)
    (mover : c.mover? = some a) (mover' : c'.mover? = some b)
    (time : c.time? = some now) (time' : c'.time? = some now)
    (answered : ∀ t ∈ e.trace [(host, c), (host', c')], t.answer.isOk = true)
    (answered' : ∀ t ∈ e.trace [(host', c'), (host, c)], t.answer.isOk = true) :
    let there := e.run [(host, c), (host', c')]
    let back := e.run [(host', c'), (host, c)]
    there.state = back.state ∧
    there.invocations = e.invocations ∧ back.invocations = e.invocations ∧
    ∃ log log', there.events = e.events ++ (log ++ log') ∧
      back.events = e.events ++ (log' ++ log) := by
  intro there back
  have hdone {t : Turn} (ht : t.answer.isOk = true) :
      ∃ r, Answered t.host t.before t.call r t.after :=
    (Turn.answered ht).imp fun _ => And.right
  have hswapped : Swapped host host' c c' a b e (Turn.mk e host c).after there
      (Turn.mk e host' c').after back :=
    { ne := hne, mover, mover'
      first := hdone (answered _ List.mem_cons_self)
      second := hdone (answered _ (List.mem_cons_of_mem _ List.mem_cons_self))
      first' := hdone (answered' _ List.mem_cons_self)
      second' := hdone (answered' _ (List.mem_cons_of_mem _ List.mem_cons_self)) }
  obtain ⟨-, log, hlog, hback⟩ := hswapped.own
  obtain ⟨-, log', hlog', hthere⟩ := hswapped.symm.own
  refine ⟨hswapped.state_eq time time' (h.run _) (h.run _), hswapped.registry_eq.2,
    hswapped.symm.registry_eq.2, log, log', ?_, ?_⟩
  · rw [hthere, hlog, List.append_assoc]
  · rw [hback, hlog', List.append_assoc]

/-- Two followers of one delegate, of whom one gets more and the other goes over to the first. -/
theorem commute_of_instant_of_shared :
    let alice : Account := ⟨"civ_alice", by decide⟩
    let bob : Account := ⟨"civ_bob", by decide⟩
    let foundation : Account := ⟨"civ_foundation", by decide⟩
    let host := Rehearsal.host { owner := foundation }
    let e := run {} [
      (host, .recordBalance alice ⟨5, by decide⟩ ⟨⟨1, by decide⟩⟩),
      (host, .recordBalance bob ⟨7, by decide⟩ ⟨⟨1, by decide⟩⟩),
      (host, .delegate alice foundation ⟨⟨1, by decide⟩⟩),
      (host, .delegate bob foundation ⟨⟨1, by decide⟩⟩)]
    let now : Timestamp := ⟨⟨2, by decide⟩⟩
    let gains : Host × Call := (host, .recordBalance alice ⟨9, by decide⟩ now)
    let leaves : Host × Call := (host, .delegate bob alice now)
    (e.run [gains, leaves]).state = (e.run [leaves, gains]).state ∧
      ((e.run [leaves, gains]).state.delegatedPowerAt foundation now).val = 9 := by
  intro alice bob foundation host e now gains leaves
  have hreachable : e.Reachable := reachable_run _
  have hthere : ∀ t ∈ e.trace [gains, leaves], t.answer.isOk = true := by decide +kernel
  have hback : ∀ t ∈ e.trace [leaves, gains], t.answer.isOk = true := by decide +kernel
  have hne : alice ≠ bob := by decide
  obtain ⟨hstate, -⟩ :=
    Reachable.commute_of_instant hreachable hne rfl rfl rfl rfl hthere hback
  exact ⟨hstate, by decide +kernel⟩

end Engine

/-! ### One account -/

namespace State

variable {s t : State} {now : Timestamp}

/-- What an instant can make of the histories of delegates and of power. -/
structure Rewritten (s t : State) (now : Timestamp) : Prop where
  delegates : ∀ a, (s.delegation.history a).Rewritten (t.delegation.history a) now
  power : ∀ x, (s.delegation.power.history x).Rewritten (t.delegation.power.history x) now

/-- What was rewritten within an instant is rewritten again. -/
theorem Rewritten.trans {u : State} (h : s.Rewritten t now) (h' : t.Rewritten u now) :
    s.Rewritten u now :=
  ⟨fun a => (h.delegates a).trans (h'.delegates a), fun x => (h.power x).trans (h'.power x)⟩

/-- **States that no query on balances and delegations tells apart**, whatever instant it asks. -/
structure ReadsLike (s t : State) : Prop where
  currentDelegate : ∀ a, s.delegation.currentDelegate a = t.delegation.currentDelegate a
  delegatorsOf : ∀ x, s.delegation.delegatorsOf x = t.delegation.delegatorsOf x
  delegateAt : ∀ a time, s.delegation.delegateAt a time = t.delegation.delegateAt a time
  delegatedPowerAt : ∀ x time, s.delegatedPowerAt x time = t.delegatedPowerAt x time
  balanceAt : ∀ host a time, s.balanceAt host a time = t.balanceAt host a time
  votingPowerAt : ∀ host a time, s.votingPowerAt host a time = t.votingPowerAt host a time

end State

namespace Engine

variable {host : Host} {e f f' : Engine} {c : Call} {r : Answer} {a target : Account}
  {balance : Amount} {now : Timestamp}

/-- A call rewrites its instant and no other. -/
theorem Answered.rewritten (h : Answered host e c r f) (mover : c.mover? = some a)
    (time : c.time? = some now) : e.state.Rewritten f.state now := by
  refine ⟨fun b => ?_, (h.power_touched mover time).rewritten⟩
  induction h with
  | recordBalance _ carries =>
    rw [carries.history_eq]
    exact .refl _ _
  | keepDelegate => exact .refl _ _
  | @moveDelegate delegator target _ order movable =>
    cases time
    by_cases hb : b = delegator
    · rw [hb, Directory.history_redelegated_self]
      exact .inr ⟨movable.own_order, target, rfl⟩
    · rw [Directory.history_redelegated_of_ne hb]
      exact .refl _ _
  | undelegate _ ih => exact ih mover time
  | _ => cases mover

/-- A balance that is recorded changes no delegate. -/
theorem Answered.ends_of_recordBalance (h : Answered host e (.recordBalance a balance now) r f) :
    f.state.held = e.state.held.put a balance now ∧
      ∀ x, f.state.delegation.currentDelegate x = e.state.delegation.currentDelegate x := by
  cases h with
  | recordBalance _ carries => exact ⟨rfl, carries.currentDelegate_eq⟩

/-- A change of delegate of an account with a recorded balance changes no balance. -/
theorem Answered.ends_of_delegate (h : Answered host e (.delegate a target now) r f)
    (known : e.state.held.hasHistory a = true) :
    f.state.held = e.state.held ∧ ∀ x, f.state.delegation.currentDelegate x =
      if x = a then target else e.state.delegation.currentDelegate x := by
  cases h with
  | keepDelegate _ same =>
    refine ⟨rfl, fun x => ?_⟩
    by_cases hx : x = a
    · rw [if_pos hx, hx, same]
    · rw [if_neg hx]
  | moveDelegate =>
    refine ⟨if_pos known, fun x => ?_⟩
    by_cases hx : x = a
    · rw [if_pos hx, hx]
      exact Directory.currentDelegate_redelegated_self ..
    · rw [if_neg hx]
      exact Directory.currentDelegate_redelegated_of_ne hx ..

/-- **Two engines that an instant made of one read alike if they end alike**: with the same balances
and the same current delegates. -/
theorem Reachable.readsLike_of_rewritten (h : e.Reachable) (hf : f.Reachable) (hf' : f'.Reachable)
    (hr : e.state.Rewritten f.state now) (hr' : e.state.Rewritten f'.state now)
    (held : f.state.held = f'.state.held) (current : ∀ a,
      f.state.delegation.currentDelegate a = f'.state.delegation.currentDelegate a) :
    f.state.ReadsLike f'.state := by
  have hlists := hf.agrees.delegators_eq hf'.agrees current
  have hlatest := hf.backed.latestValue_eq hf'.backed current fun a => by rw [held]
  have hdelegate (a : Account) (time : Timestamp) :
      f.state.delegation.delegateAt a time = f'.state.delegation.delegateAt a time := by
    refine (h.dated.delegates a).getD_lookup_eq (hr.delegates a) (hr'.delegates a) ?_ time
    rw [← hf.dated.current, ← hf'.dated.current, current]
  have hpower (x : Account) (time : Timestamp) :
      f.state.delegatedPowerAt x time = f'.state.delegatedPowerAt x time := by
    refine (h.dated.power x).getD_lookup_eq (hr.power x) (hr'.power x) ?_ time
    rw [← Ledger.latestValue_eq_getD, ← Ledger.latestValue_eq_getD, hlatest]
  have hbalance (host : Host) (a : Account) (time : Timestamp) :
      f.state.balanceAt host a time = f'.state.balanceAt host a time := by
    rw [State.balanceAt, held, State.balanceAt]
  refine ⟨current, fun x => ?_, hdelegate, hpower, hbalance, fun host a time => ?_⟩
  · rw [Directory.delegatorsOf, hlists, Directory.delegatorsOf]
  · rw [State.votingPowerAt, State.votingPowerAt]
    simp only [hdelegate, hpower, hbalance]

/-- Of two calls of an account at an instant and the last one alone, only where they end is left to
compare. -/
theorem Reachable.readsLike_of_ends (h : e.Reachable) {host₁ host₂ : Host} {first last : Call}
    (mover : first.mover? = some a) (mover' : last.mover? = some a)
    (time : first.time? = some now) (time' : last.time? = some now)
    (answered : ∀ t ∈ e.trace [(host₁, first), (host₂, last)] ++ e.trace [(host, last)],
      t.answer.isOk = true)
    (ends : ∀ {r₁ r₂ r : Answer} {e₁ e₂ f : Engine}, Answered host₁ e first r₁ e₁ →
      Answered host₂ e₁ last r₂ e₂ → Answered host e last r f →
      e₂.state.held = f.state.held ∧ ∀ x,
        e₂.state.delegation.currentDelegate x = f.state.delegation.currentDelegate x) :
    (e.run [(host₁, first), (host₂, last)]).state.ReadsLike (e.run [(host, last)]).state := by
  obtain ⟨r₁, -, h₁⟩ := Turn.answered (answered ⟨e, host₁, first⟩ List.mem_cons_self)
  obtain ⟨r₂, -, h₂⟩ := Turn.answered (answered ⟨_, host₂, last⟩
    (List.mem_cons_of_mem _ List.mem_cons_self))
  obtain ⟨r, -, h₃⟩ := Turn.answered (answered ⟨e, host, last⟩
    (List.mem_append_right _ List.mem_cons_self))
  obtain ⟨held, current⟩ := ends h₁ h₂ h₃
  have hr := (h₁.rewritten mover time).trans (h₂.rewritten mover' time')
  exact h.readsLike_of_rewritten (h.run _) (h.run _) hr (h₃.rewritten mover' time') held current

/-- **Only the last write of an instant can be read.** When an account gets two balances at one
instant, or, having a recorded balance, names two delegates, every query answers as if there had
been the last call alone, whatever balance or delegate came between and even if the last call alone
would have changed nothing. -/
theorem Reachable.last_of_instant (h : e.Reachable) (a : Account) (now : Timestamp) :
    (∀ (host₁ host₂ host : Host) (first last : Amount),
      let twice := [(host₁, Call.recordBalance a first now), (host₂, .recordBalance a last now)]
      let once := [(host, Call.recordBalance a last now)]
      (∀ t ∈ e.trace twice ++ e.trace once, t.answer.isOk = true) →
        (e.run twice).state.ReadsLike (e.run once).state) ∧
    (e.state.held.hasHistory a = true → ∀ (host₁ host₂ host : Host) (first last : Account),
      let twice := [(host₁, Call.delegate a first now), (host₂, .delegate a last now)]
      let once := [(host, Call.delegate a last now)]
      (∀ t ∈ e.trace twice ++ e.trace once, t.answer.isOk = true) →
        (e.run twice).state.ReadsLike (e.run once).state) := by
  constructor
  · intro host₁ host₂ host first last twice once answered
    refine h.readsLike_of_ends rfl rfl rfl rfl answered fun h₁ h₂ h₃ => ?_
    obtain ⟨held₁, current₁⟩ := h₁.ends_of_recordBalance
    obtain ⟨held₂, current₂⟩ := h₂.ends_of_recordBalance
    obtain ⟨held₃, current₃⟩ := h₃.ends_of_recordBalance
    refine ⟨?_, fun x => ?_⟩
    · rw [held₂, held₁, Ledger.put_put, held₃]
    · rw [current₂, current₁, current₃]
  · intro known host₁ host₂ host first last twice once answered
    refine h.readsLike_of_ends rfl rfl rfl rfl answered fun h₁ h₂ h₃ => ?_
    obtain ⟨held₁, current₁⟩ := h₁.ends_of_delegate known
    obtain ⟨held₂, current₂⟩ := h₂.ends_of_delegate (held₁ ▸ known)
    obtain ⟨held₃, current₃⟩ := h₃.ends_of_delegate known
    refine ⟨?_, fun x => ?_⟩
    · rw [held₂, held₁, held₃]
    · rw [current₂, current₁, current₃]
      split <;> rfl

/-- A delegate taken and left within an instant has a checkpoint from it. No query tells so, and
none tells a balance that comes back from one that never changed. -/
theorem last_of_instant_of_return :
    let alice : Account := ⟨"civ_alice", by decide⟩
    let bob : Account := ⟨"civ_bob", by decide⟩
    let foundation : Account := ⟨"civ_foundation", by decide⟩
    let host := Rehearsal.host { owner := foundation }
    let e := run {} [
      (host, .recordBalance alice ⟨5, by decide⟩ ⟨⟨1, by decide⟩⟩),
      (host, .delegate alice foundation ⟨⟨1, by decide⟩⟩)]
    let now : Timestamp := ⟨⟨2, by decide⟩⟩
    let gains : Host × Call := (host, .recordBalance alice ⟨9, by decide⟩ now)
    let loses : Host × Call := (host, .recordBalance alice ⟨5, by decide⟩ now)
    let leaves : Host × Call := (host, .delegate alice bob now)
    let returns : Host × Call := (host, .delegate alice foundation now)
    (e.run [gains, loses]).state.ReadsLike (e.run [loses]).state ∧
      (e.run [leaves, returns]).state.ReadsLike (e.run [returns]).state ∧
      (e.run [leaves, returns]).state.delegation.power.checkpoints bob = [⟨now, ⟨0, by decide⟩⟩] ∧
      (e.run [returns]).state.delegation.power.checkpoints bob = [] := by
  intro alice bob foundation host e now gains loses leaves returns
  have hreachable : e.Reachable := reachable_run _
  have hknown : e.state.held.hasHistory alice = true := by decide +kernel
  have hrecorded : ∀ t ∈ e.trace [gains, loses] ++ e.trace [loses],
      t.answer.isOk = true := by decide +kernel
  have hmoved : ∀ t ∈ e.trace [leaves, returns] ++ e.trace [returns],
      t.answer.isOk = true := by decide +kernel
  obtain ⟨hbalances, hdelegates⟩ := Reachable.last_of_instant hreachable alice now
  exact ⟨hbalances host host host ⟨9, by decide⟩ ⟨5, by decide⟩ hrecorded,
    hdelegates hknown host host host bob foundation hmoved, by decide +kernel, by decide +kernel⟩

end Engine
end TokenGovernance
