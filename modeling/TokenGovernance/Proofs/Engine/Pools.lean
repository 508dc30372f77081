/-
# Whose tokens a vote counts

An account that votes for itself votes with what it holds. An account with another delegate votes
with the whole pool of that delegate, that is, with what all the followers of the delegate hold
(`State.behind`). So the weights on a proposal add up to what each account held, once for every
voter who voted with it (`Engine.Chronological.sum_weights_eq`):

| tokens of | are counted once for each |
| --- | --- |
| an account that voted for itself | vote of the account |
| a follower of a delegate | vote of a follower of the same delegate |

Where no two voters followed the same delegate nothing is counted twice, and the weights are at
most what all accounts held. Where two did, their pool is (`Engine.pool_counted_twice`).
-/

import Mathlib.Algebra.BigOperators.Group.Finset.Piecewise
import Mathlib.Algebra.Order.BigOperators.Group.Finset
import TokenGovernance.Proofs.Engine.Snapshot

namespace TokenGovernance

/-- Sums over the accounts behind each vote add up account by account. -/
theorem sum_map_sum_behind (votes : List (Account × Vote)) (holders : Finset Account)
    (behind : Account → Finset Account) (balance : Account → Nat)
    (known : ∀ v ∈ votes, behind v.1 ⊆ holders) :
    (votes.map fun v => ∑ a ∈ behind v.1, balance a).sum =
      ∑ a ∈ holders, (votes.filter fun v => a ∈ behind v.1).length * balance a := by
  induction votes with
  | nil => simp
  | cons v votes ih =>
    have hrest := ih fun v hv => known v (List.mem_cons_of_mem _ hv)
    have hfirst : ∑ a ∈ behind v.1, balance a =
        ∑ a ∈ holders, if a ∈ behind v.1 then balance a else 0 := by
      rw [Finset.sum_ite_mem, Finset.inter_eq_right.2 (known v List.mem_cons_self)]
    rw [List.map_cons, List.sum_cons, hfirst, hrest, ← Finset.sum_add_distrib]
    refine Finset.sum_congr rfl fun a _ => ?_
    by_cases ha : a ∈ behind v.1
    · rw [if_pos ha, List.filter_cons_of_pos (by simpa using ha), List.length_cons, Nat.succ_mul,
        Nat.add_comm]
    · rw [if_neg ha, List.filter_cons_of_neg (by simpa using ha), Nat.zero_add]

namespace State

variable {s : State} {a v w : Account} {id : ProposalId} {time : Timestamp} {host : Host}

/-- The accounts with a recorded balance. -/
def holders (s : State) : Finset Account :=
  s.held.series.keys.toFinset.filter fun a => s.held.hasHistory a = true

/-- The holders are the accounts with a recorded balance. -/
theorem mem_holders : a ∈ s.holders ↔ s.held.hasHistory a = true := by
  refine AccountMap.mem_filter_keys fun hmem h => ?_
  have hempty : s.held.history a = {} := by
    rw [Ledger.history, Std.ExtTreeMap.getElem?_eq_none hmem]
    rfl
  rw [Ledger.hasHistory, Ledger.checkpoints, hempty] at h
  cases h

/-- The accounts whose tokens an account votes with, going by an instant. -/
def behind (s : State) (voter : Account) (time : Timestamp) : Finset Account :=
  if s.delegation.delegateAt voter time = voter then {voter}
  else s.delegation.followersAt (s.delegation.delegateAt voter time) time

/-- An account that votes for itself has nobody behind it but itself. -/
theorem behind_of_self (h : s.delegation.delegateAt v time = v) : s.behind v time = {v} :=
  if_pos h

/-- Behind an account that delegates stand all that follow its delegate. -/
theorem behind_of_delegating (h : s.delegation.delegateAt v time ≠ v) :
    s.behind v time = s.delegation.followersAt (s.delegation.delegateAt v time) time :=
  if_neg h

/-- **Voting power is what the accounts behind it held.** -/
theorem BackedAt.votingPowerAt_eq (h : s.BackedAt time) (host : Host) (voter : Account) :
    (s.votingPowerAt host voter time).val =
      ∑ a ∈ s.behind voter time, (s.balanceAt host a time).val := by
  unfold votingPowerAt
  by_cases hv : s.delegation.delegateAt voter time = voter
  · rw [if_pos hv, behind_of_self hv, Finset.sum_singleton]
  · rw [if_neg hv, behind_of_delegating hv, h.exact]
    refine Finset.sum_congr rfl fun a ha => ?_
    rw [balanceAt_of_known (h.hasHistory ha)]

/-- An account with a recorded balance votes with recorded balances. -/
theorem BackedAt.behind_subset (h : s.BackedAt time) (hk : s.held.hasHistory v = true) :
    s.behind v time ⊆ s.holders := by
  intro a ha
  rw [mem_holders]
  by_cases hv : s.delegation.delegateAt v time = v
  · rw [behind_of_self hv, Finset.mem_singleton] at ha
    rwa [ha]
  · rw [behind_of_delegating hv] at ha
    exact h.hasHistory ha

/-- **Two accounts vote with the same tokens only if they have the same other delegate.** An account
that votes for itself follows nobody. -/
theorem eq_or_sameDelegate_of_behind (hv : a ∈ s.behind v time) (hw : a ∈ s.behind w time) :
    v = w ∨ s.delegation.delegateAt v time = s.delegation.delegateAt w time ∧
      s.delegation.delegateAt v time ≠ v ∧ s.delegation.delegateAt w time ≠ w := by
  by_cases hself : s.delegation.delegateAt v time = v <;>
    by_cases hself' : s.delegation.delegateAt w time = w
  · rw [behind_of_self hself, Finset.mem_singleton] at hv
    rw [behind_of_self hself', Finset.mem_singleton] at hw
    exact .inl (hv.symm.trans hw)
  · rw [behind_of_self hself, Finset.mem_singleton] at hv
    rw [behind_of_delegating hself', Directory.mem_followersAt, hv] at hw
    exact absurd (hself.symm.trans hw.2) hw.1
  · rw [behind_of_self hself', Finset.mem_singleton] at hw
    rw [behind_of_delegating hself, Directory.mem_followersAt, hw] at hv
    exact absurd (hself'.symm.trans hv.2) hv.1
  · rw [behind_of_delegating hself] at hv
    rw [behind_of_delegating hself'] at hw
    exact .inr ⟨Directory.eq_of_mem_followersAt hv hw, hself, hself'⟩

/-- The votes on a proposal that were cast with the tokens of an account. -/
def votesWith (s : State) (id : ProposalId) (time : Timestamp) (a : Account) :
    List (Account × Vote) :=
  (s.votes.votesOn id).filter fun v => a ∈ s.behind v.1 time

/-- Where no two voters have the same other delegate, nobody's tokens are in two votes. -/
theorem length_votesWith_le (apart : ∀ v ∈ s.votes.votesOn id, ∀ w ∈ s.votes.votesOn id,
      s.delegation.delegateAt v.1 time = s.delegation.delegateAt w.1 time →
      s.delegation.delegateAt v.1 time ≠ v.1 → s.delegation.delegateAt w.1 time ≠ w.1 →
      v.1 = w.1) (a : Account) : (s.votesWith id time a).length ≤ 1 := by
  have hnodup : ((s.votesWith id time a).map Prod.fst).Nodup :=
    (VoteBook.nodup_voters s.votes id).sublist (List.filter_sublist.map _)
  rcases hvotes : s.votesWith id time a with _ | ⟨v, _ | ⟨w, rest⟩⟩
  · simp
  · simp
  · have hmem {u : Account × Vote} (hu : u ∈ s.votesWith id time a) :
        u ∈ s.votes.votesOn id ∧ a ∈ s.behind u.1 time := by
      simpa [votesWith] using hu
    obtain ⟨hv, hav⟩ := hmem (u := v) (by simp [hvotes])
    obtain ⟨hw, haw⟩ := hmem (u := w) (by simp [hvotes])
    have heq : v.1 = w.1 := by
      rcases eq_or_sameDelegate_of_behind hav haw with heq | ⟨hsame, hself, hself'⟩
      · exact heq
      · exact apart v hv w hw hsame hself hself'
    simp [hvotes, heq] at hnodup

/-- **Weights add up to what each account held, once for every vote with its tokens.** -/
theorem BackedAt.sum_weights (h : s.BackedAt time) (host : Host)
    (known : ∀ v ∈ s.votes.votesOn id, s.held.hasHistory v.1 = true)
    (weighed : ∀ v ∈ s.votes.votesOn id, v.2.weight = s.votingPowerAt host v.1 time) :
    ((s.votes.votesOn id).map (·.2.weight.val)).sum =
      ∑ a ∈ s.holders, (s.votesWith id time a).length * (s.balanceAt host a time).val := by
  have hweights : (s.votes.votesOn id).map (·.2.weight.val) =
      (s.votes.votesOn id).map fun v => ∑ a ∈ s.behind v.1 time, (s.balanceAt host a time).val := by
    refine List.map_congr_left fun v hv => ?_
    rw [weighed v hv, h.votingPowerAt_eq]
  rw [hweights]
  exact sum_map_sum_behind _ s.holders (s.behind · time) (fun a => (s.balanceAt host a time).val)
    fun v hv => h.behind_subset (known v hv)

end State

namespace Engine

variable {calls : List (Host × Call)} {id : ProposalId} {p : Proposal} {voter : Account}
  {vote : Vote}

/-- **A vote weighs the voting power at the snapshot** where all calls on balances and delegations
came before it: once a vote is cast the snapshot is reached, and there are no more such calls. -/
theorem Chronological.weight_of_early (h : Chronological calls)
    (found : (run {} calls).state.proposals[id]? = some p)
    (early : ∀ turn ∈ calls, turn.2.movesPower = true →
      ∀ now ∈ turn.2.time?, now < p.snapshotTime)
    (known : (run {} calls).state.held.hasHistory voter = true)
    (hv : (run {} calls).state.votes.vote? id voter = some vote) (host : Host) :
    vote.weight = (run {} calls).state.votingPowerAt host voter p.snapshotTime := by
  obtain ⟨before, host', later, rfl, hanswer⟩ := voted_run calls hv
  have hreachable := reachable_run before
  obtain ⟨p', found', hweight, hopened, -⟩ := voted_of_answer hanswer
  rw [run_append] at found known ⊢
  obtain ⟨q, hq, hstart, -⟩ := window_run hreachable found' ((host', _) :: later)
  rw [found] at hq
  cases hq
  have hsnapshot : p.snapshotTime = p'.snapshotTime := hstart
  have hquiet : ∀ turn ∈ (host', Call.vote voter id vote.support vote.reason vote.castAt) :: later,
      turn.2.movesPower = false := by
    intro turn hmem
    rw [← Bool.not_eq_true]
    intro hmoves
    rcases List.mem_cons.1 hmem with rfl | hlater
    · cases hmoves
    · obtain ⟨told, htold⟩ := Call.exists_time_of_movesPower hmoves
      have hlt : told < p.snapshotTime :=
        early turn (List.mem_append_right _ hmem) hmoves told htold
      have hle : vote.castAt ≤ told := h.le_of_later rfl hlater htold
      rw [hsnapshot] at hlt
      exact Nat.lt_irrefl _ (Nat.lt_of_le_of_lt (Nat.le_trans hopened hle) hlt)
  have hsame : (run {} before).state.SamePast _ p.snapshotTime :=
    samePast_run hreachable _ fun turn hmem hmoves => by
      rw [hquiet turn hmem] at hmoves
      cases hmoves
  rw [held_run _ hquiet] at known
  rw [hsame.votingPowerAt_eq known host' host, hweight, hsnapshot]

/-- **Every token is counted once for each voter who votes with it.** Let all calls on balances and
delegations of a run in order of time come before the snapshot of a proposal, and let every voter
have a recorded balance. Then the weights on the proposal add up to what each account held at the
snapshot, as often as there are votes with its tokens; and so they are at most what all accounts
held, if no two voters had the same delegate other than themselves. -/
theorem Chronological.sum_weights_eq (h : Chronological calls)
    (found : (run {} calls).state.proposals[id]? = some p)
    (early : ∀ turn ∈ calls, turn.2.movesPower = true →
      ∀ now ∈ turn.2.time?, now < p.snapshotTime)
    (known : ∀ v ∈ (run {} calls).state.votes.votesOn id,
      (run {} calls).state.held.hasHistory v.1 = true) (host : Host) :
    let s := (run {} calls).state
    ((s.votes.votesOn id).map (·.2.weight.val)).sum =
        ∑ a ∈ s.holders, (s.votesWith id p.snapshotTime a).length *
          (s.balanceAt host a p.snapshotTime).val ∧
      ((∀ v ∈ s.votes.votesOn id, ∀ w ∈ s.votes.votesOn id,
          s.delegation.delegateAt v.1 p.snapshotTime = s.delegation.delegateAt w.1 p.snapshotTime →
          s.delegation.delegateAt v.1 p.snapshotTime ≠ v.1 →
          s.delegation.delegateAt w.1 p.snapshotTime ≠ w.1 → v.1 = w.1) →
        ((s.votes.votesOn id).map (·.2.weight.val)).sum ≤
          ∑ a ∈ s.holders, (s.balanceAt host a p.snapshotTime).val) := by
  intro s
  have hb : s.BackedAt p.snapshotTime := h.backedAt p.snapshotTime
  have hsum := hb.sum_weights host known fun v hv =>
    h.weight_of_early found early (known v hv) (VoteBook.mem_votesOn.1 hv) host
  refine ⟨hsum, fun apart => ?_⟩
  rw [hsum]
  refine Finset.sum_le_sum fun a _ => ?_
  calc (s.votesWith id p.snapshotTime a).length * (s.balanceAt host a p.snapshotTime).val
      ≤ 1 * (s.balanceAt host a p.snapshotTime).val :=
        Nat.mul_le_mul_right _ (State.length_votesWith_le apart a)
    _ = (s.balanceAt host a p.snapshotTime).val := Nat.one_mul _

/-- A follower and an account that votes for itself vote with different tokens. -/
theorem sum_weights_eq_of_two :
    let alice : Account := ⟨"civ_alice", by decide⟩
    let bob : Account := ⟨"civ_bob", by decide⟩
    let foundation : Account := ⟨"civ_foundation", by decide⟩
    let host := Rehearsal.host { owner := foundation }
    let calls : List (Host × Call) := [
      (host, .setUp foundation { votingDelay := ⟨2, by decide⟩ }),
      (host, .recordBalance alice ⟨5, by decide⟩ ⟨⟨1, by decide⟩⟩),
      (host, .recordBalance bob ⟨4, by decide⟩ ⟨⟨1, by decide⟩⟩),
      (host, .delegate alice bob ⟨⟨2, by decide⟩⟩),
      (host, .create bob ⟨"raise", "", .external foundation, [1], .zero⟩ ⟨⟨3, by decide⟩⟩),
      (host, .vote alice .first .inFavor "" ⟨⟨5, by decide⟩⟩),
      (host, .vote bob .first .against "" ⟨⟨5, by decide⟩⟩)]
    let s := (run {} calls).state
    ((s.votes.votesOn .first).map (·.2.weight.val)).sum = 9 ∧
      9 ≤ ∑ a ∈ s.holders, (s.balanceAt host a ⟨⟨5, by decide⟩⟩).val := by
  intro alice bob foundation host calls s
  have hchronological : Chronological calls := by decide
  have hsnapshot : s.proposals[ProposalId.first]?.map (·.snapshotTime) =
      some ⟨⟨5, by decide⟩⟩ := by
    decide +kernel
  obtain ⟨p, found, hp⟩ := Option.map_eq_some_iff.1 hsnapshot
  have hsum : ((s.votes.votesOn .first).map (·.2.weight.val)).sum = 9 := by decide +kernel
  have hbound := (hchronological.sum_weights_eq found (by rw [hp]; decide) (by decide +kernel)
    host).2
  rw [hp] at hbound
  refine ⟨hsum, ?_⟩
  rw [← hsum]
  exact hbound (by decide +kernel)

/-- **A pool is counted twice where two of its followers vote.** All balances and delegations are
older than the snapshot, and still the votes weigh more than all accounts held. The host knows no
balances, so only recorded ones count. -/
theorem pool_counted_twice :
    let alice : Account := ⟨"civ_alice", by decide⟩
    let bob : Account := ⟨"civ_bob", by decide⟩
    let foundation : Account := ⟨"civ_foundation", by decide⟩
    let host := Rehearsal.host { owner := foundation }
    let calls : List (Host × Call) := [
      (host, .setUp foundation { votingDelay := ⟨2, by decide⟩ }),
      (host, .recordBalance alice ⟨5, by decide⟩ ⟨⟨1, by decide⟩⟩),
      (host, .recordBalance bob ⟨4, by decide⟩ ⟨⟨1, by decide⟩⟩),
      (host, .delegate alice foundation ⟨⟨2, by decide⟩⟩),
      (host, .delegate bob foundation ⟨⟨2, by decide⟩⟩),
      (host, .create bob ⟨"raise", "", .external foundation, [1], .zero⟩ ⟨⟨3, by decide⟩⟩),
      (host, .vote alice .first .inFavor "" ⟨⟨5, by decide⟩⟩),
      (host, .vote bob .first .against "" ⟨⟨5, by decide⟩⟩)]
    let s := (run {} calls).state
    Chronological calls ∧
      (∀ turn ∈ calls, turn.2.movesPower = true →
        ∀ now ∈ turn.2.time?, now < (⟨⟨5, by decide⟩⟩ : Timestamp)) ∧
      s.proposals[ProposalId.first]?.map (·.snapshotTime) = some ⟨⟨5, by decide⟩⟩ ∧
      (∀ v ∈ s.votes.votesOn .first, s.held.hasHistory v.1 = true) ∧
      ((s.votes.votesOn .first).map (·.2.weight.val)).sum = 18 ∧
      ∀ accounts : Finset Account,
        ∑ a ∈ accounts, (s.balanceAt host a ⟨⟨5, by decide⟩⟩).val ≤ 9 := by
  intro alice bob foundation host calls s
  refine ⟨by decide, by decide, by decide +kernel, by decide +kernel, by decide +kernel, ?_⟩
  intro accounts
  have hheld : ∑ a ∈ s.holders, (s.balanceAt host a ⟨⟨5, by decide⟩⟩).val = 9 := by
    decide +kernel
  rw [← hheld]
  refine Finset.sum_le_sum_of_ne_zero fun a _ hne => State.mem_holders.2 ?_
  by_contra hnot
  rw [Bool.not_eq_true] at hnot
  rw [State.balanceAt_of_unknown hnot] at hne
  exact hne rfl

end Engine
end TokenGovernance
