/-
# A row of votes

Calls for votes on one proposal that are made one after another are a row. Two things about it can
be told from the engine before the first of them, without going through the row:

- `State.Takes`, whether every call is answered: the voters are distinct, each of them could vote
  alone, and each column can hold what the row adds to it (`Engine.answered_row_iff`);
- `Engine.Counts`, what the row leaves: its votes are in the book, and each column has grown by what
  the row adds to it (`Engine.counts_of_answered`).

Neither looks at the order of the row. The weight of a vote is taken from balances and delegations,
which no vote changes, and columns only grow, so one that can hold the whole row can hold every
part of it. So the votes of a row can be cast in any order (`Engine.votes_in_any_order`).
-/

import TokenGovernance.Host.Rehearsal
import TokenGovernance.Proofs.Engine.Votes

namespace TokenGovernance

/-- A call for a vote, with the host that it is made against. -/
structure VoteCall where
  host : Host
  voter : Account
  support : Support
  reason : String
  now : Timestamp

namespace VoteCall

/-- The call, on a proposal. -/
def on (v : VoteCall) (id : ProposalId) : Host × Call :=
  (v.host, .vote v.voter id v.support v.reason v.now)

/-- The vote that is recorded. -/
def vote (v : VoteCall) (weight : Amount) : Vote := ⟨v.support, weight, v.reason, v.now⟩

/-- What is announced. -/
def announcement (v : VoteCall) (id : ProposalId) (weight : Amount) : Event :=
  .voteCast id v.voter v.support weight v.reason

/-- What a row adds to a column. -/
def gain (weigh : VoteCall → Amount) (row : List VoteCall) (side : Support) : Nat :=
  (row.map fun v => if v.support = side then (weigh v).val else 0).sum

variable {row other : List VoteCall}

/-- One vote adds its weight to its own side. -/
theorem gain_singleton (weigh : VoteCall → Amount) (v : VoteCall) (side : Support) :
    gain weigh [v] side = if v.support = side then (weigh v).val else 0 := by
  rw [gain, List.map_singleton, List.sum_singleton]

/-- Two rows add what each of them adds. -/
theorem gain_append (weigh : VoteCall → Amount) (row later : List VoteCall) (side : Support) :
    gain weigh (row ++ later) side = gain weigh row side + gain weigh later side := by
  rw [gain, List.map_append, List.sum_append, gain, gain]

/-- A row adds what its first vote and the others add. -/
theorem gain_cons (weigh : VoteCall → Amount) (v : VoteCall) (row : List VoteCall)
    (side : Support) : gain weigh (v :: row) side = gain weigh [v] side + gain weigh row side :=
  gain_append weigh [v] row side

/-- What a row adds does not depend on its order. -/
theorem gain_perm (h : row.Perm other) (weigh : VoteCall → Amount) (side : Support) :
    gain weigh row side = gain weigh other side :=
  (h.map _).sum_nat

end VoteCall

/-- The weight of a vote on a proposal. -/
def State.weigh (s : State) (p : Proposal) (v : VoteCall) : Amount :=
  s.votingPowerAt v.host v.voter p.snapshotTime

/-- A vote that can be cast, as far as its voter and its time are concerned. -/
structure VoteCall.Valid (v : VoteCall) (s : State) (id : ProposalId) (p : Proposal) : Prop where
  unvoted : s.votes.vote? id v.voter = none
  active : p.phase v.now s.parameters = .active
  weighty : 0 < (s.weigh p v).val

namespace State

variable {s : State} {id : ProposalId} {p : Proposal} {v w : VoteCall} {tally : Tally}
  {row other : List VoteCall}

/-- **When a row can be counted.** -/
structure Takes (s : State) (id : ProposalId) (p : Proposal) (row : List VoteCall) : Prop where
  distinct : (row.map VoteCall.voter).Nodup
  valid : ∀ v ∈ row, v.Valid s id p
  room : ∀ side, (p.tally.column side).val + VoteCall.gain (s.weigh p) row side < 1 <<< 128

/-- A row is counted in any order. -/
theorem Takes.perm (h : s.Takes id p row) (reordered : row.Perm other) :
    s.Takes id p other := by
  refine ⟨(reordered.map _).nodup_iff.1 h.distinct, fun v hv => ?_, fun side => ?_⟩
  · exact h.valid v (reordered.mem_iff.2 hv)
  · rw [← VoteCall.gain_perm reordered]
    exact h.room side

/-- The first vote of a row can be counted alone. -/
theorem Takes.head (h : s.Takes id p (v :: row)) : s.Takes id p [v] := by
  refine ⟨List.nodup_singleton _, ?_, fun side => ?_⟩
  · exact List.forall_mem_singleton.2 (h.valid v List.mem_cons_self)
  · have hroom := h.room side
    rw [VoteCall.gain_cons] at hroom
    omega

/-- The state with the votes of a row, and the tally of its proposal. -/
def voted (s : State) (id : ProposalId) (p : Proposal) (row : List VoteCall) (tally : Tally) :
    State :=
  { s with
    votes := s.votes.enter id (row.map fun v => (v.voter, v.vote (s.weigh p v)))
    proposals := s.proposals.insert id { p with tally } }

/-- The proposal is there, with the new tally. -/
theorem getElem?_voted (s : State) (id : ProposalId) (p : Proposal) (row : List VoteCall)
    (tally : Tally) : (s.voted id p row tally).proposals[id]? = some { p with tally } := by
  rw [voted, getElem?_insert_proposal, if_pos rfl]

/-- Votes change no weight. -/
theorem weigh_voted (s : State) (id : ProposalId) (p : Proposal) (row : List VoteCall)
    (tally : Tally) : (s.voted id p row tally).weigh { p with tally } = s.weigh p := rfl

/-- No votes change nothing. -/
theorem voted_nil (found : s.proposals[id]? = some p) : s.voted id p [] p.tally = s := by
  have hproposals : s.proposals.insert id p = s.proposals := SortedMap.insert_eq_self found
  show { s with proposals := s.proposals.insert id p } = s
  rw [hproposals]

/-- Two rows that are counted one after the other are counted as one row. -/
theorem voted_voted (s : State) (id : ProposalId) (p : Proposal) (row later : List VoteCall)
    (tally tally' : Tally) : (s.voted id p row tally).voted id { p with tally } later tally' =
      s.voted id p (row ++ later) tally' := by
  simp only [voted, List.map_append, VoteBook.enter_append, SortedMap.insert_insert]
  rfl

/-- A vote takes the right to vote again from its voter, and from nobody else. -/
theorem valid_voted_iff : w.Valid (s.voted id p [v] tally) id { p with tally } ↔
    w.voter ≠ v.voter ∧ w.Valid s id p := by
  have hvote : (s.voted id p [v] tally).votes.vote? id w.voter =
      if w.voter = v.voter then some (v.vote (s.weigh p v)) else s.votes.vote? id w.voter := by
    show (s.votes.put id v.voter _).vote? id w.voter = _
    rw [VoteBook.vote?_put]
    simp only [true_and]
  have hphase : ({ p with tally } : Proposal).phase w.now s.parameters = .active ↔
      p.phase w.now s.parameters = .active := by
    rw [Proposal.phase_eq_active_iff, Proposal.phase_eq_active_iff]
  constructor
  · intro h
    have hunvoted := h.unvoted
    rw [hvote] at hunvoted
    split at hunvoted
    · cases hunvoted
    · rename_i hne
      exact ⟨hne, hunvoted, hphase.1 h.active, h.weighty⟩
  · rintro ⟨hne, h⟩
    refine ⟨?_, hphase.2 h.active, h.weighty⟩
    rw [hvote, if_neg hne]
    exact h.unvoted

/-- **A row can be counted when its first vote can, and the others after it.** -/
theorem takes_cons_iff (column : ∀ side, (tally.column side).val =
      (p.tally.column side).val + VoteCall.gain (s.weigh p) [v] side) :
    s.Takes id p (v :: row) ↔
      s.Takes id p [v] ∧ (s.voted id p [v] tally).Takes id { p with tally } row := by
  constructor
  · intro h
    obtain ⟨hnew, hdistinct⟩ := List.nodup_cons.1 h.distinct
    refine ⟨h.head, hdistinct, fun w hw => ?_, fun side => ?_⟩
    · refine valid_voted_iff.2 ⟨fun hv => hnew ?_, h.valid w (List.mem_cons_of_mem _ hw)⟩
      exact List.mem_map.2 ⟨w, hw, hv⟩
    · have hroom := h.room side
      rw [VoteCall.gain_cons] at hroom
      rw [weigh_voted, column]
      omega
  · rintro ⟨hfirst, hlater⟩
    have hvalid {w : VoteCall} (hw : w ∈ row) := valid_voted_iff.1 (hlater.valid w hw)
    refine ⟨List.nodup_cons.2 ⟨fun hmem => ?_, hlater.distinct⟩, fun w hw => ?_, fun side => ?_⟩
    · obtain ⟨w, hw, hv⟩ := List.mem_map.1 hmem
      exact (hvalid hw).1 hv
    · rcases List.mem_cons.1 hw with rfl | hw
      · exact hfirst.valid w List.mem_cons_self
      · exact (hvalid hw).2
    · have hroom := hlater.room side
      rw [weigh_voted, column] at hroom
      rw [VoteCall.gain_cons]
      omega

end State

namespace Engine

variable {e e' e₁ e₂ : Engine} {answer : Answer} {id : ProposalId} {p : Proposal} {v : VoteCall}
  {row other later : List VoteCall} {tally tally' : Tally}

/-- **What a row that is answered makes of an engine.** -/
structure Counts (e : Engine) (id : ProposalId) (p : Proposal) (row : List VoteCall)
    (tally : Tally) (e' : Engine) : Prop where
  column : ∀ side, (tally.column side).val =
    (p.tally.column side).val + VoteCall.gain (e.state.weigh p) row side
  state : e'.state = e.state.voted id p row tally
  events : e'.events = e.events ++ row.map fun v => v.announcement id (e.state.weigh p v)
  invocations : e'.invocations = e.invocations

namespace Counts

/-- The proposal is there, with the new tally. -/
theorem found (h : Counts e id p row tally e') :
    e'.state.proposals[id]? = some { p with tally } := by
  rw [h.state, State.getElem?_voted]

/-- The weights are as they were. -/
theorem weigh_eq (h : Counts e id p row tally e') :
    e'.state.weigh { p with tally } = e.state.weigh p := by
  rw [h.state, State.weigh_voted]

/-- No votes are counted as nothing. -/
theorem nil (found : e.state.proposals[id]? = some p) : Counts e id p [] p.tally e :=
  ⟨fun _ => rfl, (State.voted_nil found).symm, (List.append_nil _).symm, rfl⟩

/-- A row is followed by another. -/
theorem append (h : Counts e id p row tally e₁)
    (h' : Counts e₁ id { p with tally } later tally' e₂) :
    Counts e id p (row ++ later) tally' e₂ := by
  refine ⟨fun side => ?_, ?_, ?_, h'.invocations.trans h.invocations⟩
  · rw [h'.column, h.weigh_eq, h.column, VoteCall.gain_append, Nat.add_assoc]
  · rw [h'.state, h.state, State.voted_voted]
  · rw [h'.events, h.weigh_eq, h.events, List.map_append, List.append_assoc]

/-- **What a row leaves does not depend on its order.** -/
theorem perm (h : Counts e id p row tally e₁) (h' : Counts e id p other tally' e₂)
    (reordered : row.Perm other) (distinct : (row.map VoteCall.voter).Nodup) :
    e₁.state = e₂.state := by
  have htally : tally = tally' := Tally.ext_column fun side => by
    rw [h.column, h'.column, VoteCall.gain_perm reordered]
  let entries := row.map fun v => (v.voter, v.vote (e.state.weigh p v))
  have hvoters : (entries.map Prod.fst).Nodup := by
    rw [List.map_map]
    exact distinct
  rw [h.state, h'.state, htally, State.voted, State.voted,
    VoteBook.enter_perm (reordered.map _) hvoters]

end Counts

/-- A vote is answered on a proposal that is there, after set-up. -/
theorem Answered.exists_proposal (h : Answered v.host e (v.on id).2 answer e') :
    ∃ p, e.state.initialized = true ∧ e.state.proposals[id]? = some p := by
  cases h with
  | vote initialized found => exact ⟨_, initialized, found⟩

/-- An answered vote is a row of one. -/
theorem Answered.counts (h : Answered v.host e (v.on id).2 answer e')
    (found : e.state.proposals[id]? = some p) :
    answer = .weight (e.state.weigh p v) ∧ e.state.Takes id p [v] ∧
      ∃ tally, Counts e id p [v] tally e' := by
  cases h with
  | @vote _ _ _ _ _ q tally _ found' unvoted active weighty counted =>
    rw [found] at found'
    cases found'
    have hcolumn (side : Support) : (tally.column side).val =
        (p.tally.column side).val + VoteCall.gain (e.state.weigh p) [v] side := by
      rw [VoteCall.gain_singleton]
      exact Tally.column_of_cast counted side
    refine ⟨rfl, ⟨List.nodup_singleton _, ?_, fun side => ?_⟩, tally, hcolumn, rfl, rfl, rfl⟩
    · exact List.forall_mem_singleton.2 ⟨unvoted, active, weighty⟩
    · rw [← hcolumn]
      exact (tally.column side).val_lt

/-- **A vote that can be counted is answered.** -/
theorem answered_of_takes (initialized : e.state.initialized = true)
    (found : e.state.proposals[id]? = some p) (h : e.state.Takes id p [v]) :
    (Turn.mk e v.host (v.on id).2).answer.isOk = true := by
  have hvalid := h.valid v List.mem_cons_self
  rcases (Turn.mk e v.host (v.on id).2).answered_or_refused with
    ⟨answer, hanswer, -⟩ | ⟨f, -, -, hr⟩
  · rw [hanswer]
    rfl
  · exfalso
    cases hr with
    | notInitialized _ before =>
      rw [initialized] at before
      cases before
    | unknown named missing =>
      cases named
      rw [found] at missing
      cases missing
    | votedAlready voted =>
      rw [hvalid.unvoted] at voted
      cases voted
    | closed found' _ inactive =>
      rw [found] at found'
      cases found'
      exact inactive hvalid.active
    | weightless found' _ none =>
      rw [found] at found'
      cases found'
      exact absurd none (Nat.ne_of_gt hvalid.weighty)
    | uncountable found' _ full =>
      rw [found] at found'
      cases found'
      have hroom := h.room v.support
      rw [VoteCall.gain_singleton, if_pos rfl] at hroom
      exact absurd hroom (Nat.not_lt.2 full)

/-- A vote is answered exactly when it can be counted. -/
theorem answered_vote_iff (initialized : e.state.initialized = true)
    (found : e.state.proposals[id]? = some p) :
    (Turn.mk e v.host (v.on id).2).answer.isOk = true ↔ e.state.Takes id p [v] := by
  refine ⟨fun h => ?_, answered_of_takes initialized found⟩
  obtain ⟨_, -, ha⟩ := Turn.answered h
  obtain ⟨-, htakes, -⟩ := ha.counts found
  exact htakes

/-- **When a row is answered throughout.** The induction is for any engine, since what the first
vote leaves decides the others. -/
theorem answered_row_iff (initialized : e.state.initialized = true)
    (found : e.state.proposals[id]? = some p) (row : List VoteCall) :
    (∀ t ∈ e.trace (row.map (·.on id)), t.answer.isOk = true) ↔
      e.state.Takes id p row := by
  induction row generalizing e p with
  | nil =>
    refine ⟨fun _ => ⟨List.nodup_nil, List.forall_mem_nil _, fun side => ?_⟩, fun _ => ?_⟩
    · exact (p.tally.column side).val_lt
    · exact List.forall_mem_nil _
  | cons v row ih =>
    rw [List.map_cons, trace, List.forall_mem_cons]
    have hfirst := answered_vote_iff (v := v) initialized found
    have hnext (htakes : e.state.Takes id p [v]) :
        (∀ t ∈ (Turn.mk e v.host (v.on id).2).after.trace (row.map (·.on id)),
          t.answer.isOk = true) ↔ e.state.Takes id p (v :: row) := by
      obtain ⟨_, -, ha⟩ := Turn.answered (hfirst.2 htakes)
      obtain ⟨-, -, tally, hcounts⟩ := ha.counts found
      have hinitialized : (Turn.mk e v.host (v.on id).2).after.state.initialized = true := by
        rw [hcounts.state]
        exact initialized
      rw [ih hinitialized hcounts.found, State.takes_cons_iff hcounts.column, hcounts.state,
        and_iff_right htakes]
    exact ⟨fun h => (hnext (hfirst.1 h.1)).1 h.2, fun h => ⟨hfirst.2 h.head, (hnext h.head).2 h⟩⟩

/-- **What a row that is answered throughout leaves.** -/
theorem counts_of_answered (found : e.state.proposals[id]? = some p)
    (answered : ∀ t ∈ e.trace (row.map (·.on id)), t.answer.isOk = true) :
    (e.trace (row.map (·.on id))).map Turn.answer =
        row.map (fun v => .ok (.weight (e.state.weigh p v))) ∧
      ∃ tally, Counts e id p row tally (e.run (row.map (·.on id))) := by
  induction row generalizing e p with
  | nil => exact ⟨rfl, p.tally, .nil found⟩
  | cons v row ih =>
    rw [List.map_cons, trace, List.forall_mem_cons] at answered
    obtain ⟨hfirst, hlater⟩ := answered
    obtain ⟨answer, hanswer, ha⟩ := Turn.answered hfirst
    obtain ⟨hweight, -, tally, hcounts⟩ := ha.counts found
    obtain ⟨hanswers, tally', hcounts'⟩ := ih hcounts.found hlater
    refine ⟨?_, tally', hcounts.append hcounts'⟩
    rw [hcounts.weigh_eq] at hanswers
    rw [List.map_cons, trace, List.map_cons, List.map_cons, hanswers]
    exact congrArg (· :: _) (hanswer.trans (congrArg Except.ok hweight))

/-- **The order of votes does not matter.** When a row of votes on a proposal is answered
throughout, it is so in any other order: each voter gets the same weight, and the state at the end
is the same. Only the announcements come in the order of the votes. -/
theorem votes_in_any_order (e : Engine) (id : ProposalId) (row : List VoteCall)
    (answered : ∀ t ∈ e.trace (row.map (·.on id)), t.answer.isOk = true) :
    ∃ (weigh : VoteCall → Amount) (after : State), ∀ other : List VoteCall, other.Perm row →
      (e.trace (other.map (·.on id))).map Turn.answer =
          other.map (fun v => .ok (.weight (weigh v))) ∧
        e.run (other.map (·.on id)) =
          { state := after
            events := e.events ++ other.map fun v => v.announcement id (weigh v)
            invocations := e.invocations } := by
  rcases row with _ | ⟨v, row⟩
  · refine ⟨fun _ => .zero, e.state, fun other hother => ?_⟩
    rw [List.Perm.eq_nil hother]
    refine ⟨rfl, ?_⟩
    rw [List.map_nil, List.map_nil, List.append_nil]
    rfl
  · obtain ⟨p, initialized, found⟩ : ∃ p, e.state.initialized = true ∧
        e.state.proposals[id]? = some p := by
      obtain ⟨_, -, hfirst⟩ :=
        Turn.answered (answered ⟨e, v.host, (v.on id).2⟩ List.mem_cons_self)
      exact hfirst.exists_proposal
    have htakes := (answered_row_iff initialized found _).1 answered
    obtain ⟨-, tally, hcounts⟩ := counts_of_answered found answered
    refine ⟨e.state.weigh p, (e.run ((v :: row).map (·.on id))).state, fun other hother => ?_⟩
    have hotherTakes := htakes.perm hother.symm
    obtain ⟨hanswers, tally', hcounts'⟩ :=
      counts_of_answered found ((answered_row_iff initialized found other).2 hotherTakes)
    refine ⟨hanswers, ?_⟩
    have hstate := hcounts'.perm hcounts hother hotherTakes.distinct
    rw [← hstate, ← hcounts'.events, ← hcounts'.invocations]

/-- Three votes, and the same from the last to the first. -/
theorem votes_in_any_order_of_three :
    let alice : Account := ⟨"civ_alice", by decide⟩
    let bob : Account := ⟨"civ_bob", by decide⟩
    let carol : Account := ⟨"civ_carol", by decide⟩
    let foundation : Account := ⟨"civ_foundation", by decide⟩
    let host := Rehearsal.host { owner := foundation }
    let e := run {} [
      (host, .setUp foundation { votingDelay := .zero }),
      (host, .recordBalance alice ⟨5, by decide⟩ ⟨⟨1, by decide⟩⟩),
      (host, .recordBalance bob ⟨7, by decide⟩ ⟨⟨1, by decide⟩⟩),
      (host, .recordBalance carol ⟨2, by decide⟩ ⟨⟨1, by decide⟩⟩),
      (host, .create alice ⟨"raise", "", .external foundation, [1], .zero⟩ ⟨⟨2, by decide⟩⟩)]
    let row : List VoteCall := [
      ⟨host, alice, .inFavor, "", ⟨⟨2, by decide⟩⟩⟩,
      ⟨host, bob, .against, "too much", ⟨⟨3, by decide⟩⟩⟩,
      ⟨host, carol, .inFavor, "", ⟨⟨2, by decide⟩⟩⟩]
    let there := e.run (row.map (·.on .first))
    let back := e.run (row.reverse.map (·.on .first))
    there.state = back.state ∧ there.events ≠ back.events ∧
      back.state.votes.weightOn .first .inFavor = 7 := by
  intro alice bob carol foundation host e row there back
  have hanswered : ∀ t ∈ e.trace (row.map (·.on .first)), t.answer.isOk = true := by
    decide +kernel
  obtain ⟨weigh, after, hrow⟩ := votes_in_any_order e .first row hanswered
  obtain ⟨-, hthere⟩ := hrow row (.refl _)
  obtain ⟨-, hback⟩ := hrow row.reverse row.reverse_perm
  have hstate : there.state = back.state :=
    (congrArg Engine.state hthere).trans (congrArg Engine.state hback).symm
  exact ⟨hstate, by decide +kernel, by decide +kernel⟩

end Engine
end TokenGovernance
