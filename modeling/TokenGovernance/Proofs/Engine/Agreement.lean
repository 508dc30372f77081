/-
# The tables of delegation agree after any run

Three calls write the tables of delegation. A change of balance touches the power of a delegate and
nothing else of them; a change of delegate records the balance of the account first, if it had no
record, and then writes all of them at one instant. So they agree after any run
(`Engine.Reachable.tables_agree`), whatever the times and however often an account changes its mind.
-/

import TokenGovernance.Host.Rehearsal
import TokenGovernance.Proofs.Agreement
import TokenGovernance.Proofs.Engine.Past

namespace TokenGovernance
namespace Engine

variable {host : Host} {e e' : Engine} {c : Call} {answer : Answer}

/-- An answered call keeps the tables in agreement. A balance that a change of delegate records is
recorded at the instant of the change. -/
theorem Answered.agrees (h : Answered host e c answer e')
    (ha : e.state.delegation.Agrees e.state.held) :
    e'.state.delegation.Agrees e'.state.held := by
  induction h with
  | recordBalance _ carries => exact (ha.carries carries).put _ _ _
  | undelegate _ ih => exact ih
  | @moveDelegate delegator target now order movable =>
    show (e.state.delegation.redelegated ..).Agrees (if _ then _ else _)
    split
    · rename_i recorded
      exact ha.redelegated _ _ _ _ (Ledger.exists_time_of_accepts order recorded)
    · refine (ha.put _ _ _).redelegated _ _ _ _ ⟨now, ?_, Nat.le_refl _⟩
      rw [Ledger.history_put_self]
      exact History.mem_times_put_self _ _ _
  | _ => exact ha

/-- **The tables of a reachable engine agree.** -/
theorem Reachable.agrees (h : e.Reachable) : e.state.delegation.Agrees e.state.held :=
  h.invariant (P := fun e => e.state.delegation.Agrees e.state.held) Directory.agrees_empty
    fun _ _ _ _ _ h ha => h.agrees ha

/-- **The tables of delegation agree.** An account has a record exactly if it has a history of
delegates, and the record is the last entry of it. The list of a delegate has the other accounts
that currently delegate to it, is not kept when there are none, and is given in the order of the
bytes of their names. Every account with a record held something known by the time it first named a
delegate. And the times of all histories increase. -/
theorem Reachable.tables_agree (h : e.Reachable) :
    (∀ a, (∃ r, e.state.delegation.records[a]? = some r) ↔
      (e.state.delegation.history a).checkpoints ≠ []) ∧
    (∀ a r, e.state.delegation.records[a]? = some r →
      ∃ last, (e.state.delegation.history a).latest? = some last ∧ r.delegate = last.value ∧
        r.changedAt = last.time) ∧
    (∀ a x, a ∈ e.state.delegation.listed x ↔
      a ≠ x ∧ e.state.delegation.currentDelegate a = x) ∧
    (∀ (x : Account) (accounts : AccountSet),
      e.state.delegation.delegators[x]? = some accounts → ∃ a, a ∈ accounts) ∧
    (∀ x, (∀ a, a ∈ e.state.delegation.delegatorsOf x ↔ a ∈ e.state.delegation.listed x) ∧
      (e.state.delegation.delegatorsOf x).Nodup ∧
      (e.state.delegation.delegatorsOf x).Pairwise fun a b =>
        Utf8.encode a.name < Utf8.encode b.name) ∧
    (∀ a r, e.state.delegation.records[a]? = some r →
      ∃ first, (e.state.delegation.history a).checkpoints.head? = some first ∧
        ∃ balance ∈ e.state.held.checkpoints a, balance.time ≤ first.time) ∧
    ∀ a, (e.state.delegation.history a).Ordered ∧ (e.state.delegation.power.history a).Ordered ∧
      (e.state.held.history a).Ordered := by
  have hagrees := h.agrees
  have last_of_record {a : Account} {r : Delegation}
      (hr : e.state.delegation.records[a]? = some r) :
      ∃ last, (e.state.delegation.history a).latest? = some last ∧ ⟨last.value, last.time⟩ = r := by
    rw [hagrees.recorded] at hr
    exact Option.map_eq_some_iff.1 hr
  refine ⟨fun a => ?_, fun a r hr => ?_, hagrees.listed, fun x accounts hx => ?_,
    fun x => e.state.delegation.delegatorsOf_spec x, fun a r hr => ?_,
    fun a => ⟨h.dated.delegates a, h.dated.power a, h.backed.ordered a⟩⟩
  · constructor
    · rintro ⟨r, hr⟩ hnil
      obtain ⟨last, hl, -⟩ := last_of_record hr
      rw [History.latest?, hnil] at hl
      cases hl
    · intro hne
      exact ⟨_, by rw [hagrees.recorded, History.latest?, List.getLast?_eq_some_getLast hne]; rfl⟩
  · obtain ⟨last, hl, rfl⟩ := last_of_record hr
    exact ⟨last, hl, rfl, rfl⟩
  · by_contra hnone
    refine hagrees.occupied x (hx.trans (congrArg some ?_))
    exact Std.ExtTreeSet.eq_empty_iff_forall_not_mem.2 fun a ha => hnone ⟨a, ha⟩
  · obtain ⟨last, hl, -⟩ := last_of_record hr
    obtain ⟨first, hfirst⟩ : ∃ first,
        (e.state.delegation.history a).checkpoints.head? = some first := by
      rcases hcs : (e.state.delegation.history a).checkpoints with _ | ⟨c, cs⟩
      · rw [History.latest?, hcs] at hl
        cases hl
      · exact ⟨c, rfl⟩
    obtain ⟨u, hu, hle⟩ := hagrees.balanced a first.time (by
      rw [History.times, List.head?_map, hfirst]
      rfl)
    obtain ⟨balance, hbalance, rfl⟩ := List.mem_map.1 hu
    exact ⟨first, hfirst, balance, hbalance, hle⟩

/-- Two accounts that change their delegates twice at one instant, one of them back to itself, and
that nothing was recorded for. -/
theorem tables_agree_of_return :
    let alice : Account := ⟨"civ_alice", by decide⟩
    let bob : Account := ⟨"civ_bob", by decide⟩
    let foundation : Account := ⟨"civ_foundation", by decide⟩
    let held : AccountMap Amount := (∅ : AccountMap Amount).insert alice ⟨5, by decide⟩
    let host := Rehearsal.host { owner := foundation, balances := held }
    let now : Timestamp := ⟨⟨1, by decide⟩⟩
    let e := run {} [
      (host, .delegate alice foundation now), (host, .delegate bob foundation now),
      (host, .delegate alice bob now), (host, .undelegate alice now)]
    bob ∈ e.state.delegation.listed foundation ∧ alice ∉ e.state.delegation.listed bob ∧
      (∃ last, (e.state.delegation.history alice).latest? = some last ∧ last.value = alice ∧
        last.time = now) ∧
      ∃ first, (e.state.delegation.history alice).checkpoints.head? = some first ∧
        ∃ balance ∈ e.state.held.checkpoints alice, balance.time ≤ first.time := by
  intro alice bob foundation held host now e
  have hreachable : e.Reachable := reachable_run _
  obtain ⟨-, hrecorded, hlisted, -, -, hbalanced, -⟩ := hreachable.tables_agree
  have hrecord : e.state.delegation.records[alice]? = some ⟨alice, now⟩ := by decide +kernel
  have hbob : bob ≠ foundation ∧ e.state.delegation.currentDelegate bob = foundation := by
    decide +kernel
  have halice : e.state.delegation.currentDelegate alice ≠ bob := by decide +kernel
  obtain ⟨last, hl, hvalue, htime⟩ := hrecorded _ _ hrecord
  exact ⟨(hlisted bob foundation).2 hbob, fun hmem => halice ((hlisted alice bob).1 hmem).2,
    ⟨last, hl, hvalue.symm, htime.symm⟩, hbalanced _ _ hrecord⟩

end Engine
end TokenGovernance
