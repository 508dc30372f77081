/-
# What becomes of a proposal

Seen from one proposal, a call either leaves its record alone or makes one of five changes, each
with what the call relied on:

| change | call | fields |
| --- | --- | --- |
| `created` | `create` | all |
| `canceled` | `cancel` | `canceled` |
| `voted` | `vote` | `tally` |
| `armed` | `execute` | `armedAt` |
| `executed` | `execute` | `armedAt`, `executed` |

No change takes a proposal away, and none but the first touches its draft or its window
(`Engine.Changes.fixed`). A number is given once, since the numbers in use are those up to the
count of proposals (`State.Registered`).
-/

import TokenGovernance.Proofs.Engine.Run

namespace TokenGovernance

/-- Every proposal is stored under its own number, one that was given, after set-up. -/
structure State.Registered (s : State) : Prop where
  initialized : ∀ {id : ProposalId} {p : Proposal}, s.proposals[id]? = some p →
    s.initialized = true
  numbered : ∀ {id : ProposalId} {p : Proposal}, s.proposals[id]? = some p → p.id = id
  given : ∀ {id : ProposalId} {p : Proposal}, s.proposals[id]? = some p →
    0 < id.val ∧ id.val ≤ s.proposalCount.val

/-- A state without proposals is in order. -/
theorem State.registered_empty : ({} : State).Registered := ⟨by simp, by simp, by simp⟩

/-- A record written under a number is found there, and the others are found as they were. -/
theorem getElem?_insert_proposal (m : Std.ExtTreeMap ProposalId Proposal) (i id : ProposalId)
    (p : Proposal) : (m.insert i p)[id]? = if id = i then some p else m[id]? := by
  rw [SortedMap.getElem?_insert]
  simp only [eq_comm]

namespace State.Registered

variable {s s' : State} {id : ProposalId} {p p' : Proposal}

/-- The next number was not given yet. -/
theorem fresh (h : s.Registered) (next : id.val = s.proposalCount.val + 1) :
    s.proposals[id]? = none := by
  rcases found : s.proposals[id]? with _ | p
  · rfl
  · have := (h.given found).2
    omega

/-- Replacing a record by one with the same number keeps the registry in order. -/
theorem replace (h : s.Registered) (found : s.proposals[id]? = some p)
    (hp : s'.proposals = s.proposals.insert id p') (hid : p'.id = p.id)
    (hi : s'.initialized = s.initialized) (hc : s'.proposalCount = s.proposalCount) :
    s'.Registered := by
  have hold {i : ProposalId} {q : Proposal} (hq : s'.proposals[i]? = some q) :
      ∃ q₀, s.proposals[i]? = some q₀ ∧ q.id = q₀.id := by
    rw [hp, getElem?_insert_proposal] at hq
    split at hq
    · rename_i hi
      cases hq
      exact ⟨p, hi ▸ found, hid⟩
    · exact ⟨q, hq, rfl⟩
  refine ⟨fun hq => ?_, fun hq => ?_, fun hq => ?_⟩ <;> obtain ⟨q₀, hq₀, hqid⟩ := hold hq
  · rw [hi]
    exact h.initialized hq₀
  · rw [hqid]
    exact h.numbered hq₀
  · rw [hc]
    exact h.given hq₀

/-- A new record takes the number after the last one. -/
theorem create (h : s.Registered) (initialized : s.initialized = true)
    (hp : s'.proposals = s.proposals.insert id p) (hid : p.id = id)
    (next : id.val = s.proposalCount.val + 1) (hi : s'.initialized = s.initialized)
    (hc : s'.proposalCount = id.toQuantity) : s'.Registered := by
  have hold {i : ProposalId} {q : Proposal} (hq : s'.proposals[i]? = some q) :
      i = id ∧ q = p ∨ s.proposals[i]? = some q := by
    rw [hp, getElem?_insert_proposal] at hq
    split at hq
    · rename_i hi
      cases hq
      exact .inl ⟨hi, rfl⟩
    · exact .inr hq
  refine ⟨fun hq => ?_, fun hq => ?_, fun hq => ?_⟩
  · rw [hi, initialized]
  · rcases hold hq with ⟨rfl, rfl⟩ | hq₀
    · exact hid
    · exact h.numbered hq₀
  · rw [hc]
    rcases hold hq with ⟨rfl, rfl⟩ | hq₀
    · omega
    · have hle := h.given hq₀
      omega

end State.Registered

namespace Engine

variable {host : Host} {e e' : Engine} {c : Call} {answer : Answer} {id : ProposalId}
  {p p' : Proposal} {now eta : Timestamp}

/-- **What an answered call makes of the record of one proposal**, if it changes it. -/
inductive Changes (host : Host) (e : Engine) (id : ProposalId) :
    Call → Option Proposal → Option Proposal → Prop where
  | kept {c : Call} {o : Option Proposal} : Changes host e id c o o
  | created {proposer : Account} {draft : Draft} {now startTime endTime : Timestamp}
      (start : startTime.val = now.val + e.state.parameters.votingDelay.val)
      (stop : endTime.val = startTime.val + e.state.parameters.votingPeriod.val) :
      Changes host e id (.create proposer draft now) none
        (some (.submitted draft id proposer now startTime endTime))
  | canceled {caller : Account} {now : Timestamp} {p : Proposal}
      (authority : p.proposer = caller ∨ host.isOwner caller = true)
      (undecided : p.phase now e.state.parameters = .pending ∨
        p.phase now e.state.parameters = .active) :
      Changes host e id (.cancel caller id now) (some p) (some { p with canceled := true })
  | voted {voter : Account} {support : Support} {reason : String} {now : Timestamp} {p : Proposal}
      {tally : Tally} (active : p.phase now e.state.parameters = .active)
      (counted : p.tally.cast support (e.state.votingPowerAt host voter p.snapshotTime) =
        .ok tally) :
      Changes host e id (.vote voter id support reason now) (some p) (some { p with tally })
  | armed {now eta : Timestamp} {p : Proposal}
      (succeeded : p.phase now e.state.parameters = .succeeded)
      (delayed : eta.val = now.val + e.state.parameters.executionDelay.val) (later : now < eta) :
      Changes host e id (.execute id now) (some p) (some { p with armedAt := some eta })
  | executed {now eta : Timestamp} {p : Proposal} (due : p.Due now e.state.parameters eta) :
      Changes host e id (.execute id now) (some p)
        (some { p with armedAt := some eta, executed := true })

/-- A call that writes the record of one proposal keeps the others. -/
theorem Changes.of_insert {i : ProposalId} (h : Changes host e i c e.state.proposals[i]? (some p))
    (id : ProposalId) :
    Changes host e id c e.state.proposals[id]? (e.state.proposals.insert i p)[id]? := by
  rw [getElem?_insert_proposal]
  by_cases hid : id = i
  · subst hid
    rwa [if_pos rfl]
  · rw [if_neg hid]
    exact .kept

/-- **An answered call makes one of the five changes or none.** -/
theorem Answered.changes (h : Answered host e c answer e') (hr : e.state.Registered)
    (id : ProposalId) : Changes host e id c e.state.proposals[id]? e'.state.proposals[id]? := by
  cases h with
  | undelegate answered => cases answered <;> exact .kept
  | @create proposer draft now startTime endTime count _ _ _ start stop next =>
    refine Changes.of_insert ?_ id
    rw [hr.fresh next]
    exact .created start stop
  | cancel _ found authority undecided =>
    refine Changes.of_insert ?_ id
    rw [found]
    exact .canceled authority undecided
  | vote _ found _ active _ counted =>
    refine Changes.of_insert ?_ id
    rw [found]
    exact .voted active counted
  | arm _ found succeeded delayed later =>
    refine Changes.of_insert ?_ id
    rw [found]
    exact .armed succeeded delayed later
  | invoke _ found due =>
    refine Changes.of_insert ?_ id
    rw [found]
    exact .executed due
  | amend _ found due =>
    refine Changes.of_insert ?_ id
    rw [found]
    exact .executed due
  | _ => exact .kept

/-- A record that is there stays there, with its number, its draft and its window. -/
theorem Changes.fixed {o : Option Proposal} (h : Changes host e id c (some p) o) :
    ∃ p', o = some p' ∧ p'.id = p.id ∧ p'.toDraft = p.toDraft ∧ p'.startTime = p.startTime ∧
      p'.endTime = p.endTime := by
  cases h <;> exact ⟨_, rfl, rfl, rfl, rfl, rfl⟩

/-- A record that was not there is that of a proposal just created. -/
theorem Answered.created (h : Answered host e c answer e') (hr : e.state.Registered)
    (new : e.state.proposals[id]? = none) (found : e'.state.proposals[id]? = some p) :
    ∃ proposer now, c = .create proposer p.toDraft now ∧ answer = .created id := by
  have hchanges := h.changes hr id
  rw [new, found] at hchanges
  cases hchanges with
  | @created proposer draft now startTime endTime =>
    refine ⟨proposer, now, rfl, ?_⟩
    cases h with
    | @create _ _ _ _ _ count =>
      rw [getElem?_insert_proposal] at found
      split at found
      · rename_i hid
        rw [hid]
      · rw [new] at found
        cases found

/-- **The registry stays in order.** -/
theorem Answered.registered (h : Answered host e c answer e') (hr : e.state.Registered) :
    e'.state.Registered := by
  induction h with
  | setUp => exact ⟨fun _ => rfl, hr.numbered, hr.given⟩
  | undelegate _ ih => exact ih
  | create initialized _ _ _ _ next => exact hr.create initialized rfl rfl next rfl rfl
  | cancel _ found => exact hr.replace found rfl rfl rfl rfl
  | vote _ found => exact hr.replace found rfl rfl rfl rfl
  | arm _ found => exact hr.replace found rfl rfl rfl rfl
  | invoke _ found => exact hr.replace found rfl rfl rfl rfl
  | amend _ found => exact hr.replace found rfl rfl rfl rfl
  | _ => exact ⟨hr.initialized, hr.numbered, hr.given⟩

/-- **The registry of a reachable engine is in order.** -/
theorem Reachable.registered (h : e.Reachable) : e.state.Registered :=
  h.invariant (P := fun e => e.state.Registered) State.registered_empty
    fun _ _ _ _ _ ha hr => ha.registered hr

end Engine

namespace Turn

/-- What becomes of one proposal in a turn. -/
theorem changes (t : Turn) (hr : t.before.state.Registered) (id : ProposalId) :
    Engine.Changes t.host t.before id t.call t.before.state.proposals[id]?
      t.after.state.proposals[id]? := by
  rcases t.answered_or_refused with ⟨answer, -, ha⟩ | ⟨f, -, hkept, -⟩
  · exact ha.changes hr id
  · rw [hkept]
    exact .kept

/-- A turn, answered or refused, keeps the registry in order. -/
theorem registered_after {t : Turn} (hr : t.before.state.Registered) :
    t.after.state.Registered := by
  rcases t.answered_or_refused with ⟨answer, -, ha⟩ | ⟨f, -, hkept, -⟩
  · exact ha.registered hr
  · rwa [hkept]

end Turn

namespace Engine

/-- **What every new proposal has and every change keeps, all proposals have.** -/
theorem Reachable.proposal_invariant {P : Proposal → Prop}
    (new : ∀ draft id proposer now startTime endTime,
      P (.submitted draft id proposer now startTime endTime))
    (next : ∀ host e id c p p', Changes host e id c (some p) (some p') → P p → P p')
    {e : Engine} (h : e.Reachable) {id : ProposalId} {p : Proposal}
    (found : e.state.proposals[id]? = some p) : P p := by
  refine (h.invariant (P := fun e => e.state.Registered ∧
    ∀ id p, e.state.proposals[id]? = some p → P p) ⟨State.registered_empty, ?_⟩ ?_).2 id p found
  · intro id p found
    simp at found
  · rintro host e c answer e' ha ⟨hr, hall⟩
    refine ⟨ha.registered hr, fun id p' found' => ?_⟩
    have hchanges := ha.changes hr id
    rw [found'] at hchanges
    rcases hbefore : e.state.proposals[id]? with _ | p
    · rw [hbefore] at hchanges
      cases hchanges
      exact new ..
    · rw [hbefore] at hchanges
      exact next _ _ _ _ _ _ hchanges (hall id p hbefore)

/-- A turn leaves a record that it finds, changed or not. -/
theorem Reachable.changes_of_found {e : Engine} (h : e.Reachable) {id : ProposalId} {p : Proposal}
    (found : e.state.proposals[id]? = some p) (host : Host) (c : Call) :
    ∃ q, (Turn.mk e host c).after.state.proposals[id]? = some q ∧
      Changes host e id c (some p) (some q) := by
  have hchanges := (Turn.mk e host c).changes h.registered id
  rw [found] at hchanges
  obtain ⟨q, hq, -⟩ := hchanges.fixed
  rw [hq] at hchanges
  exact ⟨q, hq, hchanges⟩

/-- **What every change of a record in a run keeps holds of the record after the run.** -/
theorem Reachable.record_run {P : Proposal → Prop} {e : Engine} (h : e.Reachable)
    {id : ProposalId} {p : Proposal} (found : e.state.proposals[id]? = some p) (start : P p)
    (calls : List (Host × Call))
    (next : ∀ t ∈ e.trace calls, ∀ q q',
      Changes t.host t.before id t.call (some q) (some q') → P q → P q') :
    ∃ p', (e.run calls).state.proposals[id]? = some p' ∧ P p' := by
  induction calls generalizing e p with
  | nil => exact ⟨p, found, start⟩
  | cons turn calls ih =>
    obtain ⟨host, c⟩ := turn
    obtain ⟨p', found', hchanges⟩ := h.changes_of_found found host c
    exact ih (h.run [(host, c)]) found' (next _ List.mem_cons_self _ _ hchanges start)
      fun t ht => next t (List.mem_cons_of_mem _ ht)

/-- **What happens at most once in a run.** If some turns set a mark that was not set, and the
other turns leave the mark alone, the mark tells how many of them there were. -/
theorem length_filter_trace {sets : Turn → Bool} (mark : State → Bool) (start : mark {} = false)
    (step : ∀ t : Turn, t.before.state.Registered →
      sets t = false ∧ mark t.after.state = mark t.before.state ∨
        sets t = true ∧ mark t.before.state = false ∧ mark t.after.state = true)
    (calls : List (Host × Call)) :
    ((trace {} calls).filter sets).length = if mark (run {} calls).state then 1 else 0 := by
  refine (trace_induction (P := fun turns e => e.state.Registered ∧
    (turns.filter sets).length = if mark e.state then 1 else 0) ⟨State.registered_empty, ?_⟩
    (fun turns t ⟨hr, h⟩ => ⟨Turn.registered_after hr, ?_⟩) calls).2
  · show 0 = if mark {} then 1 else 0
    rw [start, if_neg Bool.false_ne_true]
  · rw [List.filter_append, List.length_append, h]
    rcases step t hr with ⟨hno, hsame⟩ | ⟨hyes, hbefore, hafter⟩
    · simp [hno, hsame]
    · simp [hyes, hbefore, hafter]

end Engine
end TokenGovernance
