/-
# Calls that cannot be refused

In a run whose times never decrease nothing is recorded later than the instant that a call is told,
so no call would go back in time (`Engine.Refused.not_recordedBy`). What is left to refuse a call on
balances or delegations is an overflow, and there are two places for one:

| call | what has to be held | by |
| --- | --- | --- |
| `recordBalance`, the balance grows | the power of the delegate, and the difference | the delegate |
| `delegate` to another account | the power of the target, and the balance | the target |

Since the power of a delegate is what its followers hold, either is part of what all accounts hold
once the call is applied (`Turn.holding`). So no such call is refused while that is an amount
(`Turn.Fits`).
-/

import Mathlib.Algebra.Order.BigOperators.Group.Finset
import TokenGovernance.Proofs.Binary.Records
import TokenGovernance.Proofs.Engine.Chronology

namespace TokenGovernance

/-- A call on balances or delegations has nothing to do with proposals. -/
theorem Call.of_movesPower {c : Call} (moves : c.movesPower = true) :
    c.onProposals = false ∧ c.proposal? = none := by
  cases c with
  | recordBalance | delegate | undelegate => exact ⟨rfl, rfl⟩
  | _ => cases moves

namespace State

variable {s s' : State} {host : Host} {a b x : Account} {value : Amount} {now : Timestamp}

/-- What an account holds: what was recorded last, or what the host says where nothing was. -/
def holding (s : State) (host : Host) (a : Account) : Amount :=
  if s.held.hasHistory a then s.held.latestValue a else host.balance a

/-- A recorded amount is what the account holds from then on. -/
theorem holding_of_put (h : s'.held = s.held.put a value now) (host : Host) (b : Account) :
    s'.holding host b = if b = a then value else s.holding host b := by
  unfold holding
  rw [h]
  by_cases hb : b = a
  · rw [if_pos hb, hb, if_pos (Ledger.hasHistory_put_self ..), Ledger.latestValue_put_self]
  · have hknown : (s.held.put a value now).hasHistory b = s.held.hasHistory b := by
      rw [Ledger.hasHistory, Ledger.checkpoints, Ledger.history_put_of_ne hb]
      rfl
    rw [if_neg hb, hknown, Ledger.latestValue_put_of_ne hb]

/-- At an instant that a balance would be accepted at, the balance is what the account holds. -/
theorem balanceAt_eq_holding (ordered : (s.held.history a).Ordered)
    (order : (s.held.history a).Accepts now) (host : Host) :
    s.balanceAt host a now = s.holding host a := by
  unfold holding
  cases hk : s.held.hasHistory a with
  | true =>
    rw [if_pos rfl]
    exact balanceAt_eq_latestValue ordered order hk host
  | false =>
    rw [if_neg Bool.false_ne_true]
    exact balanceAt_of_unknown hk host now

/-- What a follower holds is recorded. -/
theorem holding_of_follower (hb : s.delegation.Backed s.held) (ha : a ∈ s.delegation.followers x)
    (host : Host) : s.holding host a = s.held.latestValue a := by
  obtain ⟨hne, hx⟩ := Directory.mem_followers.1 ha
  exact if_pos (hb.known a (by rw [hx]; exact Ne.symm hne))

/-- **The power of a delegate is what its followers hold**, whatever the host says. -/
theorem power_eq_sum_holding (hb : s.delegation.Backed s.held) (host : Host) (x : Account) :
    (s.delegation.power.latestValue x).val =
      ∑ a ∈ s.delegation.followers x, (s.holding host a).val := by
  rw [hb.exact]
  refine Finset.sum_congr rfl fun a ha => ?_
  rw [holding_of_follower hb ha]

end State

namespace Turn

/-- What an account holds once the call of a turn is applied, whether or not it is. -/
def holding (t : Turn) (a : Account) : Amount :=
  match t.call with
  | .recordBalance account balance _ =>
    if a = account then balance else t.before.state.holding t.host a
  | _ => t.before.state.holding t.host a

/-- Any accounts together hold what an amount can tell once the call of a turn is applied. -/
def Fits (t : Turn) : Prop :=
  ∀ accounts : Finset Account, ∑ a ∈ accounts, (t.holding a).val < 1 <<< 128

end Turn

namespace Engine

variable {host : Host} {e e' : Engine} {c : Call} {answer : Answer} {a target : Account}
  {balance : Amount} {time latest now : Timestamp} {f : Fault} {t : Turn}
  {calls : List (Host × Call)}

/-! ### Nothing goes back in time -/

/-- A draft is refused for its action. -/
theorem checkAction_eq_error {draft : Draft} (h : checkAction draft = .error f) :
    ∃ why, f = .invalidAction why := by
  unfold checkAction at h
  split at h
  · cases h
  · split at h
    · cases h
      exact ⟨_, rfl⟩
    · rcases hd : Amendment.decode draft.payload with f' | amendment
      · rw [hd] at h
        cases h
        exact Amendment.decode_eq_error hd
      · rw [hd] at h
        cases h

/-- **A call that would go back in time is told an instant before one that is recorded.** -/
theorem Refused.not_recordedBy (h : Refused host e c (.checkpointOutOfOrder a time latest)) :
    ∃ now ∈ c.time?, ¬e.state.RecordedBy now := by
  generalize hf : Fault.checkpointOutOfOrder a time latest = f at h
  induction h with
  | @balanceOrder account balance now _ late =>
    refine ⟨now, rfl, fun hr => ?_⟩
    rw [Ledger.checkOrder_eq_ok_iff.2 (hr.held account)] at late
    cases late
  | @carry account balance now _ _ refused =>
    refine ⟨now, rfl, fun hr => ?_⟩
    cases refused with
    | full => cases hf
    | short => cases hf
    | order _ _ late =>
      rw [Ledger.checkOrder_eq_ok_iff.2 (hr.power _)] at late
      cases late
  | @delegatorOrder delegator target now _ late =>
    refine ⟨now, rfl, fun hr => ?_⟩
    rw [Ledger.checkOrder_eq_ok_iff.2 (hr.held delegator)] at late
    cases late
  | @move delegator target now _ _ refused =>
    refine ⟨now, rfl, fun hr => ?_⟩
    cases refused with
    | debit => cases hf
    | credit => cases hf
    | order late =>
      rw [Directory.checkOrder_eq_ok_iff.2 ⟨hr.power _, hr.power _, hr.delegates _⟩] at late
      cases late
  | undelegate _ ih => exact ih hf
  | unusable bad =>
    obtain ⟨why, rfl⟩ := checkAction_eq_error bad
    cases hf
  | notExecutable _ refused =>
    rcases Timelock.nextStep_eq_error refused with rfl | rfl <;> cases hf
  | undecodable _ _ _ bad =>
    obtain ⟨why, rfl⟩ := Amendment.decode_eq_error bad
    cases hf
  | inapplicable _ _ _ _ refused =>
    rcases Amendment.apply_eq_error refused with ⟨rfl, -⟩ | ⟨why, rfl⟩ <;> cases hf
  | _ => cases hf

/-- In a run in order of time all that is recorded before a turn is recorded by its time. -/
theorem Chronological.recordedBy_before (h : Chronological calls) (ht : t ∈ trace {} calls)
    (hnow : now ∈ t.call.time?) : t.before.state.RecordedBy now := by
  obtain ⟨before, later, rfl, hbefore⟩ := exists_append_of_mem_trace ht
  rw [hbefore]
  refine recordedBy_run before fun u hu => ?_
  exact (chronological_append.1 h).2.2 u hu now (mem_times.2 ⟨_, List.mem_cons_self, hnow⟩)

/-- **In a run in order of time no call would go back in time.** -/
theorem Chronological.not_checkpointOutOfOrder (h : Chronological calls)
    (ht : t ∈ trace {} calls) (a : Account) (time latest : Timestamp) :
    t.answer ≠ .error (.checkpointOutOfOrder a time latest) := by
  intro hf
  obtain ⟨now, hnow, hnot⟩ := (Turn.refused hf).not_recordedBy
  exact hnot (h.recordedBy_before ht hnow)

/-! ### Nothing overflows -/

/-- A call on balances or delegations is refused for its time or for an overflow. -/
theorem Refused.late_or_overflow (h : Refused host e c f) (moves : c.movesPower = true) :
    (∃ a time latest, f = .checkpointOutOfOrder a time latest) ∨ f = .overflow := by
  have hledger {l : Ledger} {a : Account} {now : Timestamp} {f : Fault}
      (late : l.checkOrder a now = .error f) :
      (∃ a time latest, f = .checkpointOutOfOrder a time latest) ∨ f = .overflow := by
    obtain ⟨last, -, -, rfl⟩ := Ledger.checkOrder_eq_error_iff.1 late
    exact .inl ⟨_, _, _, rfl⟩
  induction h with
  | balanceOrder late => exact hledger late
  | carry _ refused =>
    cases refused with
    | full => exact .inr rfl
    | short => exact .inr rfl
    | order _ _ late => exact hledger late
  | delegatorOrder late => exact hledger late
  | move _ refused =>
    cases refused with
    | debit => exact .inr rfl
    | credit => exact .inr rfl
    | order late =>
      obtain ⟨b, latest, rfl⟩ := Directory.checkOrder_eq_error late
      exact .inl ⟨_, _, _, rfl⟩
  | undelegate _ ih => exact ih rfl
  | notInitialized works => rw [(Call.of_movesPower moves).1] at works; cases works
  | unknown named => rw [(Call.of_movesPower moves).2] at named; cases named
  | _ => cases moves

/-- An account that votes for itself adds nothing to any power that could overflow. -/
theorem Refused.delegating_of_overflow
    (h : Refused host e (.recordBalance a balance now) .overflow) :
    e.state.delegation.currentDelegate a ≠ a := by
  cases h with
  | balanceOrder late => exact absurd late (checkOrder_ne_overflow _ _ _)
  | carry _ refused =>
    cases refused with
    | full delegating | short delegating | order delegating => exact delegating

/-- **A balance overflows only where the followers of the delegate hold too much with it.** Their
power is made of the same balances, but for the old one of the account. -/
theorem Refused.not_fits_recordBalance
    (h : Refused host e (.recordBalance a balance now) .overflow)
    (hb : e.state.delegation.Backed e.state.held) :
    ¬(Turn.mk e host (.recordBalance a balance now)).Fits := by
  intro hfits
  obtain ⟨hgrows, hfull⟩ := h.overflow_recordBalance hb
  generalize hx : e.state.delegation.currentDelegate a = x at hfull
  have hmem : a ∈ e.state.delegation.followers x :=
    Directory.mem_followers.2 ⟨fun hax => h.delegating_of_overflow (hx.trans hax.symm), hx⟩
  have hpower := State.power_eq_sum_holding hb host x
  rw [← Finset.add_sum_erase _ _ hmem, State.holding_of_follower hb hmem] at hpower
  have hsum := hfits (e.state.delegation.followers x)
  rw [← Finset.add_sum_erase _ _ hmem] at hsum
  have hself : (Turn.mk e host (.recordBalance a balance now)).holding a = balance := if_pos rfl
  have hrest : ∑ b ∈ (e.state.delegation.followers x).erase a,
      ((Turn.mk e host (.recordBalance a balance now)).holding b).val =
        ∑ b ∈ (e.state.delegation.followers x).erase a, (e.state.holding host b).val :=
    Finset.sum_congr rfl fun b hbmem =>
      congrArg Quantity.val (if_neg (Finset.ne_of_mem_erase hbmem))
  rw [hself, hrest] at hsum
  rw [Quantity.lt_def] at hgrows
  omega

/-- **A change of delegate overflows only where the account and the followers of the target hold too
much.** -/
theorem Refused.not_fits_delegate (h : Refused host e (.delegate a target now) .overflow)
    (order : (e.state.held.history a).Accepts now) (hb : e.state.delegation.Backed e.state.held)
    (changes : e.state.delegation.currentDelegate a ≠ target) :
    ¬(Turn.mk e host (.delegate a target now)).Fits := by
  intro hfits
  have hfull := (h.overflow_delegate hb).2
  have hnot : a ∉ e.state.delegation.followers target := fun hmem =>
    changes (Directory.mem_followers.1 hmem).2
  have hsum := hfits (insert a (e.state.delegation.followers target))
  rw [Finset.sum_insert hnot] at hsum
  have hpower := State.power_eq_sum_holding hb host target
  rw [State.balanceAt_eq_holding (hb.ordered a) order, hpower] at hfull
  have hsame (b : Account) :
      (Turn.mk e host (.delegate a target now)).holding b = e.state.holding host b := rfl
  simp only [hsame] at hsum
  omega

/-- Naming the delegate that an account has already is answered. -/
theorem perform_delegate_same (order : (e.state.held.history a).Accepts now)
    (same : e.state.delegation.currentDelegate a = target) :
    (delegate host a target now).perform e = (.ok (), e) := by
  unfold delegate onDelegation Directory.delegate
  simp only [Procedure.perform_bind, Procedure.perform_get, Procedure.perform_check,
    Ledger.checkOrder_eq_ok_iff.2 order, Procedure.perform_within, same, if_true,
    Procedure.perform_pure]

/-- What an answered call on balances or delegations leaves is what its turn was taken to apply. The
first balance that is recorded of an account is what the host says it holds. -/
theorem Answered.holding_eq (h : Answered host e c answer e') (moves : c.movesPower = true)
    (hb : e.state.delegation.Backed e.state.held) :
    answer = .done ∧ ∀ a, e'.state.holding host a = (Turn.mk e host c).holding a := by
  induction h with
  | recordBalance => exact ⟨rfl, State.holding_of_put rfl host⟩
  | keepDelegate => exact ⟨rfl, fun _ => rfl⟩
  | @moveDelegate delegator target now order =>
    refine ⟨rfl, fun a => ?_⟩
    show State.holding _ host a = e.state.holding host a
    cases hk : e.state.held.hasHistory delegator with
    | true => rfl
    | false =>
      have hlive := State.balanceAt_eq_holding (hb.ordered delegator) order host
      rw [State.holding_of_put rfl host a]
      split
      · rename_i ha
        rw [ha, hlive]
      · rfl
  | undelegate _ ih => exact ih rfl
  | _ => cases moves

/-- **A call on balances or delegations that fits is answered**, in a run in order of time. -/
theorem Chronological.answered_of_fits (h : Chronological calls) (ht : t ∈ trace {} calls)
    (moves : t.call.movesPower = true) (fits : t.Fits) :
    t.answer = .ok .done ∧ ∀ a, t.after.state.holding t.host a = t.holding a := by
  have hb := (reachable_of_mem_trace (reachable_run []) ht).backed
  rcases t.answered_or_refused with ⟨answer, hanswer, ha⟩ | ⟨f, hf, -, hrefused⟩
  · obtain ⟨rfl, hholding⟩ := ha.holding_eq moves hb
    exact ⟨hanswer, hholding⟩
  exfalso
  rcases hrefused.late_or_overflow moves with ⟨a, time, latest, rfl⟩ | rfl
  · exact h.not_checkpointOutOfOrder ht a time latest hf
  obtain ⟨e, host, c⟩ := t
  cases c with
  | recordBalance account balance now => exact hrefused.not_fits_recordBalance hb fits
  | delegate delegator target now =>
    have hrecorded : e.state.RecordedBy now := h.recordedBy_before ht rfl
    have order := hrecorded.held delegator
    by_cases same : e.state.delegation.currentDelegate delegator = target
    · have hanswer : (Turn.mk e host (.delegate delegator target now)).answer = .ok .done :=
        congrArg Prod.fst (Procedure.perform_bind_ok (perform_delegate_same order same))
      rw [hanswer] at hf
      cases hf
    · exact hrefused.not_fits_delegate order hb same fits
  | undelegate delegator now =>
    cases hrefused with
    | undelegate refused => exact (refused.overflow_delegate hb).1 rfl
  | _ => cases moves

/-- **Under honest time nothing on balances or delegations is refused.** In a run whose times never
decrease, no call is refused for going back in time. And a call that records a balance or changes a
delegate is answered, provided that all accounts together hold an amount once it is applied; then
they hold exactly what it was taken to make them hold. -/
theorem Chronological.available (h : Chronological calls) :
    (∀ t ∈ trace {} calls, ∀ a time latest,
      t.answer ≠ .error (.checkpointOutOfOrder a time latest)) ∧
    ∀ t ∈ trace {} calls, t.call.movesPower = true →
      (∀ accounts : Finset Account, ∑ a ∈ accounts, (t.holding a).val ≤ 2 ^ 128 - 1) →
      t.answer = .ok .done ∧ ∀ a, t.after.state.holding t.host a = t.holding a := by
  refine ⟨fun t ht => h.not_checkpointOutOfOrder ht, fun t ht moves fits => ?_⟩
  refine h.answered_of_fits ht moves fun accounts => ?_
  rw [Nat.one_shiftLeft]
  exact Nat.lt_of_le_pred (Nat.two_pow_pos 128) (fits accounts)

/-- Two accounts that hold all that an amount can tell, the last of it recorded at the instant at
which both delegated. -/
theorem available_of_all :
    let alice : Account := ⟨"civ_alice", by decide⟩
    let bob : Account := ⟨"civ_bob", by decide⟩
    let foundation : Account := ⟨"civ_foundation", by decide⟩
    let live : AccountMap Amount := (∅ : AccountMap Amount).insert alice ⟨2 ^ 128 - 6, by decide⟩
    let host := Rehearsal.host { owner := foundation, balances := live }
    let e := run {} [
      (host, .delegate alice foundation ⟨⟨1, by decide⟩⟩),
      (host, .delegate bob foundation ⟨⟨1, by decide⟩⟩)]
    (Turn.mk e host (.recordBalance bob ⟨5, by decide⟩ ⟨⟨1, by decide⟩⟩)).answer = .ok .done := by
  intro alice bob foundation live host e
  let t := Turn.mk e host (.recordBalance bob ⟨5, by decide⟩ ⟨⟨1, by decide⟩⟩)
  let calls : List (Host × Call) := [
    (host, .delegate alice foundation ⟨⟨1, by decide⟩⟩),
    (host, .delegate bob foundation ⟨⟨1, by decide⟩⟩), (host, t.call)]
  have hchronological : Chronological calls := by decide
  have ht : t ∈ trace {} calls := List.mem_of_getLast? rfl
  have hkeys : e.state.held.series.keys = [alice, bob] := by decide +kernel
  have hother (a : Account) (halice : a ≠ alice) (hbob : a ≠ bob) : (t.holding a).val = 0 := by
    have hmem : a ∉ e.state.held.series := by
      rw [← Std.ExtTreeMap.mem_keys, hkeys]
      simp [halice, hbob]
    have hnone : e.state.held.hasHistory a = false := by
      rw [Ledger.hasHistory, Ledger.checkpoints, Ledger.history,
        Std.ExtTreeMap.getElem?_eq_none hmem]
      rfl
    have hlive : live[a]? = none := by
      rw [SortedMap.getElem?_insert, if_neg (Ne.symm halice)]
      rfl
    show (if a = bob then _ else e.state.holding host a : Amount).val = 0
    rw [if_neg hbob, State.holding, hnone, if_neg Bool.false_ne_true]
    show (live[a]?.getD .zero).val = 0
    rw [hlive]
    rfl
  refine (hchronological.available.2 t ht rfl fun accounts => ?_).1
  calc ∑ a ∈ accounts, (t.holding a).val
      ≤ ∑ a ∈ {alice, bob}, (t.holding a).val := by
        refine Finset.sum_le_sum_of_ne_zero fun a _ hne => ?_
        rw [Finset.mem_insert, Finset.mem_singleton]
        by_contra hnot
        obtain ⟨halice, hbob⟩ := not_or.1 hnot
        exact hne (hother a halice hbob)
    _ ≤ 2 ^ 128 - 1 := by decide +kernel

end Engine
end TokenGovernance
