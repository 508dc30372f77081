/-
# The registry of proposals

The proposals are numbered without a gap from one to the count of proposals
(`Engine.Reachable.mem_proposals_iff`), and what a proposal says is settled when it is created:

| field of a record | over a run |
| --- | --- |
| number, proposer, draft | as created |
| digest | the hash of the draft, each field behind its length |
| creation, first and last instant of the window | as created, in this order |
| each column of the tally | grows or stays |
| the marks: canceled, armed, executed | set by calls that name the proposal |

The window is never empty, since it was measured by parameters that are sound from set-up on,
whatever governance made of them (`Engine.Reachable.sound`).
-/

import TokenGovernance.Host.Rehearsal
import TokenGovernance.Proofs.Assignment
import TokenGovernance.Proofs.Engine.Amendments
import TokenGovernance.Proofs.Utf8

namespace TokenGovernance

/-- A sound record has a voting window that is not empty. -/
theorem Parameters.votingPeriod_pos {parameters : Parameters} (h : parameters.defect? = none) :
    0 < parameters.votingPeriod.val :=
  Nat.pos_of_ne_zero (defect?_eq_none_iff.1 h).period

/-- Every number up to the count of proposals has a proposal. -/
def State.Gapless (s : State) : Prop :=
  ∀ id : ProposalId, 0 < id.val → id.val ≤ s.proposalCount.val → id ∈ s.proposals

namespace Proposal

/-- What holds of a record from its creation on. -/
structure Wellformed (p : Proposal) : Prop where
  created : p.createdAt ≤ p.startTime
  window : p.startTime < p.endTime
  /-- The digest is the hash of what was submitted, each field behind its length. -/
  hashed : p.contentHash.bytes = Blake2b.hash
    ([p.title.toUTF8.data.toList, p.description.toUTF8.data.toList,
      (match p.target with
        | .parameterStore => "parameter-store"
        | .external account => account.name).toUTF8.data.toList,
      p.payload, ByteString.littleEndian 16 p.value.val].flatMap fun field =>
        ByteString.littleEndian 8 field.length ++ field)

/-- **One record of a proposal and a later one.** What was submitted stays, and no side of the
tally loses weight. -/
structure Develops (p p' : Proposal) : Prop where
  id : p'.id = p.id
  proposer : p'.proposer = p.proposer
  draft : p'.toDraft = p.toDraft
  contentHash : p'.contentHash = p.contentHash
  createdAt : p'.createdAt = p.createdAt
  startTime : p'.startTime = p.startTime
  endTime : p'.endTime = p.endTime
  tally : ∀ side, p.tally.column side ≤ p'.tally.column side

variable {p q r : Proposal}

/-- A record develops into itself. -/
theorem Develops.refl (p : Proposal) : p.Develops p :=
  ⟨rfl, rfl, rfl, rfl, rfl, rfl, rfl, fun _ => Nat.le_refl _⟩

/-- What a record developed into develops on. -/
theorem Develops.trans (h : p.Develops q) (h' : q.Develops r) : p.Develops r where
  id := h'.id.trans h.id
  proposer := h'.proposer.trans h.proposer
  draft := h'.draft.trans h.draft
  contentHash := h'.contentHash.trans h.contentHash
  createdAt := h'.createdAt.trans h.createdAt
  startTime := h'.startTime.trans h.startTime
  endTime := h'.endTime.trans h.endTime
  tally side := Nat.le_trans (h.tally side) (h'.tally side)

/-- A record stays well-formed. -/
theorem Wellformed.of_develops (hp : p.Wellformed) (h : p.Develops q) : q.Wellformed where
  created := by rw [h.createdAt, h.startTime]; exact hp.created
  window := by rw [h.startTime, h.endTime]; exact hp.window
  hashed := by rw [h.contentHash, h.draft]; exact hp.hashed

end Proposal

namespace Engine

variable {host : Host} {e e' : Engine} {c : Call} {answer : Answer} {id i : ProposalId}
  {p p' : Proposal} {o o' : Option Proposal}

/-! ### In one call -/

/-- **A call develops the record of a proposal.** -/
theorem Changes.develops (h : Changes host e id c (some p) (some p')) : p.Develops p' := by
  cases h with
  | voted _ counted =>
    refine { Proposal.Develops.refl p with tally := fun side => ?_ }
    rw [Quantity.le_def, Tally.column_of_cast counted]
    exact Nat.le_add_right _ _
  | _ => exact { Proposal.Develops.refl p with }

/-- A call that names another proposal leaves the record of a proposal alone. -/
theorem Changes.eq_of_other (h : Changes host e id c o o') (named : c.proposal? = some i)
    (other : id ≠ i) : o' = o := by
  cases h with
  | kept => rfl
  | created => cases named
  | _ => exact absurd (Option.some.inj named) other

/-- A call leaves the votes on a proposal that it does not name alone. -/
theorem Answered.ballots_eq (h : Answered host e c answer e') (other : c.proposal? ≠ some id) :
    e'.state.votes.ballots id = e.state.votes.ballots id := by
  induction h with
  | undelegate _ ih => exact ih nofun
  | vote => exact VoteBook.ballots_put_of_ne (fun hid => other (congrArg some hid.symm)) _ _ _
  | _ => rfl

/-- A new proposal takes the next number, and no record is lost. -/
theorem Answered.gapless (h : Answered host e c answer e') (hg : e.state.Gapless) :
    e'.state.Gapless := by
  have insert {s : State} (hs : s.Gapless) (i : ProposalId) (p : Proposal) :
      ({ s with proposals := s.proposals.insert i p } : State).Gapless := fun id hpos hle =>
    Std.ExtTreeMap.mem_insert.2 (.inr (hs id hpos hle))
  induction h with
  | undelegate _ ih => exact ih
  | @create _ _ _ _ _ count _ _ _ _ _ next =>
    intro id hpos hle
    refine Std.ExtTreeMap.mem_insert.2 ?_
    by_cases hid : id.val = count.val
    · rw [ProposalId.ext hid]
      exact .inl Std.ReflCmp.compare_self
    · have hle : id.val ≤ count.val := hle
      exact .inr (hg id hpos (by omega))
  | cancel | vote | arm | invoke | amend => exact insert hg _ _
  | _ => exact hg

/-- A record is well-formed when it is created, under sound parameters, and stays so. -/
theorem Answered.wellformed (h : Answered host e c answer e') (hr : e.Reachable)
    (hw : ∀ (id : ProposalId) (p : Proposal), e.state.proposals[id]? = some p → p.Wellformed)
    (found : e'.state.proposals[id]? = some p') : p'.Wellformed := by
  have hchanges := h.changes hr.registered id
  rw [found] at hchanges
  rcases hbefore : e.state.proposals[id]? with _ | p
  · rw [hbefore] at hchanges
    generalize hc : c = c' at hchanges
    cases hchanges with
    | @created proposer draft now startTime endTime start stop =>
      subst hc
      have initialized : e.state.initialized = true := by
        cases h with
        | create initialized => exact initialized
      have hpos := Parameters.votingPeriod_pos (hr.sound initialized)
      refine ⟨?_, ?_, ?_⟩
      · show now.val ≤ startTime.val
        omega
      · show startTime.val < endTime.val
        omega
      · simp only [← Utf8.encode_eq_toUTF8]
        rfl
  · rw [hbefore] at hchanges
    exact (hw id p hbefore).of_develops hchanges.develops

/-! ### In a reachable engine -/

/-- **The proposals are numbered from one to their count.** -/
theorem Reachable.mem_proposals_iff (h : e.Reachable) :
    id ∈ e.state.proposals ↔ 0 < id.val ∧ id.val ≤ e.state.proposalCount.val := by
  constructor
  · intro hmem
    exact h.registered.given (Std.ExtTreeMap.getElem?_eq_some_getElem hmem)
  · rintro ⟨hpos, hle⟩
    refine h.invariant (P := fun e => e.state.Gapless) (fun id hpos hle => ?_)
      (fun _ _ _ _ _ ha => ha.gapless) id hpos hle
    exact absurd (Nat.lt_of_lt_of_le hpos hle) (Nat.lt_irrefl 0)

/-- **Every record of a reachable engine is well-formed.** -/
theorem Reachable.wellformed (h : e.Reachable) (found : e.state.proposals[id]? = some p) :
    p.Wellformed :=
  h.induction (P := fun e => ∀ (id : ProposalId) (p : Proposal),
      e.state.proposals[id]? = some p → p.Wellformed)
    (fun _ _ found => by simp at found)
    (fun _ _ _ _ _ hr ha hw _ _ found => ha.wellformed hr hw found) id p found

/-- Before set-up nothing is proposed: otherwise there would be a proposal with number one, and
proposals come after set-up. -/
theorem Reachable.proposalCount_eq_zero (h : e.Reachable)
    (uninitialized : e.state.initialized = false) : e.state.proposalCount.val = 0 := by
  by_contra hne
  have hfirst : ProposalId.first ∈ e.state.proposals :=
    h.mem_proposals_iff.2 ⟨Nat.one_pos, Nat.one_le_iff_ne_zero.2 hne⟩
  have hinit := h.registered.initialized (Std.ExtTreeMap.getElem?_eq_some_getElem hfirst)
  rw [uninitialized] at hinit
  cases hinit

/-! ### Over a run -/

/-- **A record is never lost, and develops.** -/
theorem Reachable.develops_run (h : e.Reachable) (found : e.state.proposals[id]? = some p)
    (later : List (Host × Call)) :
    ∃ p', (e.run later).state.proposals[id]? = some p' ∧ p.Develops p' :=
  h.record_run (P := p.Develops) found (.refl p) later
    fun _ _ _ _ hchanges hp => hp.trans hchanges.develops

/-- **The registry of proposals is kept in order.** The numbers in use are those from one to the
count, each for the record that carries it, and none before set-up. A record begins with its
creation, has a window that is not empty, and carries the hash of what was submitted: title,
description, target in words, payload and value, each behind its length in eight bytes. Whatever is
called, it is never lost, what was submitted never changes, and no side of its tally loses weight;
and a call that names one proposal touches the record and the votes of no other. -/
theorem Reachable.registry_kept (h : e.Reachable) :
    (∀ id : ProposalId, id ∈ e.state.proposals ↔ 0 < id.val ∧ id.val ≤ e.state.proposalCount.val) ∧
    (e.state.initialized = false → e.state.proposalCount.val = 0) ∧
    (∀ (id : ProposalId) (p : Proposal), e.state.proposals[id]? = some p →
      p.id = id ∧ p.createdAt ≤ p.startTime ∧ p.startTime < p.endTime ∧
      p.contentHash.bytes = Blake2b.hash
        ([p.title.toUTF8.data.toList, p.description.toUTF8.data.toList,
          (match p.target with
            | .parameterStore => "parameter-store"
            | .external account => account.name).toUTF8.data.toList,
          p.payload, ByteString.littleEndian 16 p.value.val].flatMap fun field =>
            ByteString.littleEndian 8 field.length ++ field)) ∧
    (∀ (id : ProposalId) (p : Proposal) later, e.state.proposals[id]? = some p →
      ∃ p' : Proposal, (e.run later).state.proposals[id]? = some p' ∧ p'.id = p.id ∧
        p'.toDraft = p.toDraft ∧ p'.proposer = p.proposer ∧ p'.contentHash = p.contentHash ∧
        p'.createdAt = p.createdAt ∧ p'.startTime = p.startTime ∧ p'.endTime = p.endTime ∧
        ∀ side, p.tally.column side ≤ p'.tally.column side) ∧
    ∀ host c (i id : ProposalId), c.proposal? = some i → id ≠ i →
      (Turn.mk e host c).after.state.proposals[id]? = e.state.proposals[id]? ∧
      (Turn.mk e host c).after.state.votes.ballots id = e.state.votes.ballots id := by
  refine ⟨fun id => h.mem_proposals_iff, h.proposalCount_eq_zero, fun id p found => ?_,
    fun id p later found => ?_, fun host c i id named other => ?_⟩
  · have hw := h.wellformed found
    exact ⟨h.registered.numbered found, hw.created, hw.window, hw.hashed⟩
  · obtain ⟨p', found', hd⟩ := h.develops_run found later
    exact ⟨p', found', hd.id, hd.draft, hd.proposer, hd.contentHash, hd.createdAt, hd.startTime,
      hd.endTime, hd.tally⟩
  · refine ⟨((Turn.mk e host c).changes h.registered id).eq_of_other named other, ?_⟩
    rcases (Turn.mk e host c).answered_or_refused with ⟨answer, -, ha⟩ | ⟨f, -, hkept, -⟩
    · refine ha.ballots_eq fun hid => other ?_
      exact Option.some.inj (hid.symm.trans named)
    · rw [hkept]

/-- An amendment shortens the window of later proposals, and leaves that of the first one, which it
was voted for in. The digest of the first one is that of its hundred bytes, which fit into one
block of the hash. -/
theorem registry_kept_of_amendment :
    let alice : Account := ⟨"civ_alice", by decide⟩
    let foundation : Account := ⟨"civ_foundation", by decide⟩
    let host := Rehearsal.host { owner := foundation }
    let payload := Binary.Codec.amendment.write (.set .votingPeriod ⟨1, by decide⟩)
    let hurry : Draft := ⟨"hurry", "", .parameterStore, payload, .zero⟩
    let second : ProposalId := ⟨⟨2, by decide⟩⟩
    let e := run {} [
      (host, .setUp foundation { votingDelay := .zero, executionDelay := .zero }),
      (host, .recordBalance alice ⟨5, by decide⟩ ⟨⟨1, by decide⟩⟩),
      (host, .create alice hurry ⟨⟨2, by decide⟩⟩),
      (host, .vote alice .first .inFavor "" ⟨⟨2, by decide⟩⟩)]
    let later : List (Host × Call) := [
      (host, .execute .first ⟨⟨604803, by decide⟩⟩),
      (host, .create alice ⟨"raise", "", .external foundation, [1], .zero⟩ ⟨⟨604804, by decide⟩⟩)]
    let vote : Call := .vote alice second .against "" ⟨⟨604804, by decide⟩⟩
    (e.run later).state.parameters.votingPeriod.val = 1 ∧ second ∈ (e.run later).state.proposals ∧
      (∃ p p' : Proposal, e.state.proposals[ProposalId.first]? = some p ∧
        (e.run later).state.proposals[ProposalId.first]? = some p' ∧ p.endTime.val = 604802 ∧
        p'.endTime = p.endTime ∧ p.tally.column .inFavor ≤ p'.tally.column .inFavor ∧
        p.contentHash.bytes = [
          0x3e, 0xeb, 0xd3, 0x72, 0x8a, 0x74, 0xf4, 0x10, 0x56, 0x07, 0xa0, 0x0d, 0xc7, 0x14, 0xa3,
          0x94, 0xc4, 0x1c, 0x73, 0x3c, 0xf0, 0x56, 0xbd, 0xe6, 0x5a, 0x94, 0x47, 0xf4, 0x0e, 0x48,
          0x65, 0xb8]) ∧
      (Turn.mk (e.run later) host vote).after.state.votes.ballots .first =
        (e.run later).state.votes.ballots .first := by
  intro alice foundation host payload hurry second e later vote
  have hreachable : e.Reachable := reachable_run _
  have hperiod : (e.run later).state.parameters.votingPeriod.val = 1 := by decide +kernel
  have hcount : (e.run later).state.proposalCount.val = 2 := by decide +kernel
  have hrecord : e.state.proposals[ProposalId.first]?.map (fun p => (p.toDraft, p.endTime.val)) =
      some (hurry, 604802) := by decide +kernel
  obtain ⟨p, found, hp⟩ := Option.map_eq_some_iff.1 hrecord
  obtain ⟨hdraft, hend⟩ := Prod.mk.inj hp
  obtain ⟨-, -, hrecords, hdevelops, -⟩ := hreachable.registry_kept
  obtain ⟨-, -, -, hhash⟩ := hrecords _ p found
  obtain ⟨p', found', -, -, -, -, -, -, hsame, htally⟩ := hdevelops _ p later found
  obtain ⟨hnumbers, -, -, -, hothers⟩ := (hreachable.run later).registry_kept
  have hsecond : second ∈ (e.run later).state.proposals :=
    (hnumbers second).2 ⟨Nat.two_pos, Nat.le_of_eq hcount.symm⟩
  rw [hdraft, Blake2b.hash, Blake2b.absorb] at hhash
  exact ⟨hperiod, hsecond,
    ⟨p, p', found, found', hend, hsame, htally _, hhash.trans (by decide +kernel)⟩,
    (hothers host vote second .first rfl (by decide)).2⟩

end Engine
end TokenGovernance
