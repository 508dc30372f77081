/-
# What a store holds

Loading takes whatever is stored, also what was damaged or written by hand. The snapshot tells how
many proposals there are, and the record of each has to be stored under its number
(`Store.Files`); what is stored under other numbers is not looked at. A store that is in order
holds one state (`Store.Holds`), and in any other the first thing that is wrong is the refusal
(`Store.Defect`):

| found | refused as |
| --- | --- |
| no snapshot | not found |
| a snapshot that is none | unreadable |
| no record under a number | not found |
| a record that is none | unreadable |
| the record of another proposal | misfiled |

Loading in a store that works answers with the state that is held, or is refused with the defect,
and there is always just one of the two (`State.load_eq_ok_iff`, `State.load_eq_error_iff`).
-/

import TokenGovernance.Proofs.Binary.Exact
import TokenGovernance.Proofs.Fault
import TokenGovernance.Proofs.SortedMap
import TokenGovernance.Store.Snapshot

namespace TokenGovernance

open Binary (Codec)

namespace Store

variable {store : Store} {s s' : State} {id : ProposalId} {p p' : Proposal} {f f' : Fault}

/-- Whether the record of a proposal is stored under its number. -/
def Files (store : Store) (id : ProposalId) (p : Proposal) : Prop :=
  ∃ bytes, store.proposals[id]? = some bytes ∧ Codec.proposal.decode bytes = .ok p ∧ p.id = id

/-- What is wrong where the record of a proposal should be. -/
inductive BadRecord (store : Store) (id : ProposalId) : Fault → Prop where
  | missing (absent : store.proposals[id]? = none) :
      BadRecord store id (.store (.notFound (.proposal id)))
  | unreadable {bytes : ByteString} {why : Binary.Fault}
      (stored : store.proposals[id]? = some bytes)
      (undecoded : Codec.proposal.decode bytes = .error why) :
      BadRecord store id (.encoding (.unreadable why))
  | misfiled {bytes : ByteString} {p : Proposal} (stored : store.proposals[id]? = some bytes)
      (decoded : Codec.proposal.decode bytes = .ok p) (other : p.id ≠ id) :
      BadRecord store id (.store (.misfiled id p.id))

/-- Whether the snapshot of a store is that of a state, whose proposals are left out. -/
def Snapshots (store : Store) (s : State) : Prop :=
  ∃ bytes, store.metadata[State.snapshotName]? = some bytes ∧
    Codec.snapshot.decode bytes = .ok { s with proposals := ∅ }

/-- **A store that is in order**: its snapshot can be read, and under each number up to the count in
it stands the record of that proposal. -/
def Consistent (store : Store) : Prop :=
  ∃ s, store.Snapshots s ∧
    ∀ id : ProposalId, 0 < id.val → id.val ≤ s.proposalCount.val → ∃ p, store.Files id p

/-- **A store holds a state** if it is in order, and the state is the one in the snapshot with the
proposals that are recorded under the numbers up to its count, and no others. -/
structure Holds (store : Store) (s : State) : Prop where
  snapshots : store.Snapshots s
  files : ∀ id : ProposalId, 0 < id.val → id.val ≤ s.proposalCount.val → ∃ p, store.Files id p
  found_iff : ∀ id p, s.proposals[id]? = some p ↔
    0 < id.val ∧ id.val ≤ s.proposalCount.val ∧ store.Files id p

/-- **The first thing that is wrong with what is stored.** -/
inductive Defect (store : Store) : Fault → Prop where
  | noSnapshot (absent : store.metadata[State.snapshotName]? = none) :
      Defect store (.store (.notFound (.metadata State.snapshotName)))
  | unreadable {bytes : ByteString} {why : Binary.Fault}
      (stored : store.metadata[State.snapshotName]? = some bytes)
      (undecoded : Codec.snapshot.decode bytes = .error why) :
      Defect store (.encoding (.unreadable why))
  | record {s : State} {id : ProposalId} {f : Fault} (snapshots : store.Snapshots s)
      (pos : 0 < id.val) (counted : id.val ≤ s.proposalCount.val) (bad : store.BadRecord id f)
      (first : ∀ i : ProposalId, 0 < i.val → i.val < id.val → ∃ p, store.Files i p) :
      Defect store f

/-! ### One record -/

/-- A store that works refuses nothing. -/
theorem check_eq_ok (working : store.failure = none) (operation : Operation) :
    store.check operation = .ok () := by
  rw [check, working]

/-- A store that works gives out the record under a number, if there is one. -/
theorem getProposal_eq (working : store.failure = none) (id : ProposalId) :
    store.getProposal id =
      match store.proposals[id]? with
      | some bytes => .ok bytes
      | none => .error (.store (.notFound (.proposal id))) := by
  unfold getProposal
  rw [check_eq_ok working]
  rcases store.proposals[id]? with _ | bytes <;> rfl

/-- A store that works gives out the metadata under a name, if there are any. -/
theorem getMetadata_eq (working : store.failure = none) (name : String) :
    store.getMetadata name = .ok store.metadata[name]? := by
  unfold getMetadata
  rw [check_eq_ok working]
  rfl

/-- One record at most is filed under a number. -/
theorem Files.eq (h : store.Files id p) (h' : store.Files id p') : p = p' := by
  obtain ⟨bytes, hbytes, hp, -⟩ := h
  obtain ⟨bytes', hbytes', hp', -⟩ := h'
  rw [hbytes] at hbytes'
  cases hbytes'
  rw [hp] at hp'
  exact Except.ok.inj hp'

/-- A record is not wrong in two ways. -/
theorem BadRecord.eq (h : store.BadRecord id f) (h' : store.BadRecord id f') : f = f' := by
  cases h <;> cases h' <;> simp_all

/-- A record that is wrong is not filed. -/
theorem BadRecord.not_files (h : store.BadRecord id f) : ¬store.Files id p := by
  rintro ⟨bytes, hbytes, hp, hid⟩
  cases h <;> simp_all

/-! ### All of a store -/

/-- The snapshot tells a state up to its proposals. -/
theorem Snapshots.eq (h : store.Snapshots s) (h' : store.Snapshots s') :
    s' = { s with proposals := s'.proposals } := by
  obtain ⟨bytes, hbytes, hs⟩ := h
  obtain ⟨bytes', hbytes', hs'⟩ := h'
  rw [hbytes] at hbytes'
  cases hbytes'
  rw [hs] at hs'
  cases s
  cases s'
  cases hs'
  rfl

/-- A store holds one state at most. -/
theorem Holds.eq (h : store.Holds s) (h' : store.Holds s') : s = s' := by
  have hsame := h.snapshots.eq h'.snapshots
  have hproposals : s.proposals = s'.proposals := by
    refine Std.ExtTreeMap.ext_getElem? fun id => Option.ext fun p => ?_
    rw [h.found_iff, h'.found_iff, hsame]
  rw [hsame, ← hproposals]

/-- A store that holds a state is in order. -/
theorem Holds.consistent (h : store.Holds s) : store.Consistent := ⟨s, h.snapshots, h.files⟩

/-- Nothing is wrong with a store that is in order. -/
theorem Consistent.not_defect (h : store.Consistent) : ¬store.Defect f := by
  obtain ⟨s, hsnapshots, hfiles⟩ := h
  obtain ⟨bytes, hbytes, hs⟩ := id hsnapshots
  rintro (absent | ⟨stored, undecoded⟩ | ⟨snapshots, pos, counted, bad, -⟩)
  · rw [hbytes] at absent
    cases absent
  · rw [hbytes] at stored
    cases stored
    rw [hs] at undecoded
    cases undecoded
  · rw [hsnapshots.eq snapshots] at counted
    obtain ⟨p, hp⟩ := hfiles _ pos counted
    exact bad.not_files hp

/-- Whatever is wrong with a store is the storage's fault. -/
theorem Defect.category (h : store.Defect f) : f.category = .storage := by
  cases h with
  | noSnapshot | unreadable => rfl
  | record _ _ _ bad => cases bad <;> rfl

/-- A store has one defect at most. Of two bad records the one with the smaller number would be
filed, by the other defect. -/
theorem Defect.eq (h : store.Defect f) (h' : store.Defect f') : f = f' := by
  cases h with
  | noSnapshot absent =>
    cases h' with
    | noSnapshot => rfl
    | unreadable stored => simp_all
    | record snapshots => obtain ⟨bytes, stored, -⟩ := snapshots; simp_all
  | unreadable stored undecoded =>
    cases h' with
    | noSnapshot absent => simp_all
    | unreadable stored' undecoded' => simp_all
    | record snapshots => obtain ⟨bytes, stored', decoded⟩ := snapshots; simp_all
  | @record _ id _ snapshots pos _ bad first =>
    cases h' with
    | noSnapshot absent => obtain ⟨bytes, stored, -⟩ := snapshots; simp_all
    | unreadable stored undecoded => obtain ⟨bytes, stored', decoded⟩ := snapshots; simp_all
    | @record _ id' _ _ pos' _ bad' first' =>
      have hid : id = id' := by
        refine ProposalId.ext (Nat.le_antisymm (Nat.not_lt.1 fun hlt => ?_)
          (Nat.not_lt.1 fun hlt => ?_))
        · obtain ⟨p, hp⟩ := first id' pos' hlt
          exact bad'.not_files hp
        · obtain ⟨p, hp⟩ := first' id pos hlt
          exact bad.not_files hp
      subst hid
      exact bad.eq bad'

end Store

namespace State

variable {s s' : State} {store : Store} {id : ProposalId} {p : Proposal} {f : Fault}
  {n remaining : Nat}

/-! ### Loading -/

/-- A record is loaded if it is filed, and refused for what is wrong with it. -/
theorem loadProposal_spec (working : store.failure = none) (id : ProposalId) :
    (∃ p, loadProposal store id = .ok p ∧ store.Files id p) ∨
      ∃ f, loadProposal store id = .error f ∧ store.BadRecord id f := by
  unfold loadProposal
  rw [Store.getProposal_eq working]
  rcases hstored : store.proposals[id]? with _ | bytes
  · exact .inr ⟨_, rfl, .missing hstored⟩
  · rcases hdecoded : Codec.proposal.decode bytes with why | p
    · refine .inr ⟨_, Fault.bind_eq_error_iff.2 (.inr ⟨bytes, rfl, ?_⟩),
        .unreadable hstored hdecoded⟩
      rw [hdecoded]
      rfl
    · by_cases hid : p.id = id
      · refine .inl ⟨p, Fault.bind_eq_ok_iff.2 ⟨bytes, rfl, ?_⟩, bytes, hstored, hdecoded, hid⟩
        rw [hdecoded]
        exact if_pos hid
      · refine .inr ⟨_, Fault.bind_eq_error_iff.2 (.inr ⟨bytes, rfl, ?_⟩),
          .misfiled hstored hdecoded hid⟩
        rw [hdecoded]
        exact if_neg hid

/-- A count that is in range is kept as it is. -/
theorem clamp_val (fits : n < 1 <<< 64) : (Quantity.clamp n : Quantity 64).val = n := by
  show min _ _ = _
  omega

/-- **The records are loaded in order**, each under its number, up to the first that is wrong. The
next record is put in place before the others are looked at, or it is the first bad one. -/
theorem loadProposals_spec (working : store.failure = none) (fits : n + remaining < 1 <<< 64) :
    (∃ s', loadProposals store s n remaining = .ok s' ∧
      s' = { s with proposals := s'.proposals } ∧
      (∀ id : ProposalId, n < id.val → id.val ≤ n + remaining →
        ∃ p, store.Files id p ∧ s'.proposals[id]? = some p) ∧
      ∀ id : ProposalId, id.val ≤ n ∨ n + remaining < id.val →
        s'.proposals[id]? = s.proposals[id]?) ∨
    ∃ f, loadProposals store s n remaining = .error f ∧ ∃ id : ProposalId, n < id.val ∧
      id.val ≤ n + remaining ∧ store.BadRecord id f ∧
      ∀ i : ProposalId, n < i.val → i.val < id.val → ∃ p, store.Files i p := by
  induction remaining generalizing s n with
  | zero =>
    exact .inl ⟨s, rfl, rfl, fun id hlt hle => by omega, fun id _ => rfl⟩
  | succ remaining ih =>
    have hval := clamp_val (n := n + 1) (by omega)
    have next_of {i : ProposalId} (hi : n < i.val) : i = ⟨.clamp (n + 1)⟩ ∨ n + 1 < i.val := by
      rcases Nat.eq_or_lt_of_le hi with h | h
      · exact .inl (ProposalId.ext (h.symm.trans hval.symm))
      · exact .inr h
    rcases loadProposal_spec working ⟨.clamp (n + 1)⟩ with ⟨p, hp, hfiles⟩ | ⟨f, hf, hbad⟩
    · let next : State := { s with proposals := s.proposals.insert ⟨.clamp (n + 1)⟩ p }
      have hnext : loadProposals store s n (remaining + 1) =
          loadProposals store next (n + 1) remaining := by
        rw [loadProposals, hp]
        rfl
      rw [hnext]
      rcases ih (s := next) (n := n + 1) (by omega) with
        ⟨s', hs', hrest, hfiled, hkept⟩ | ⟨f, hf, id, hlt, hle, hbad, hfirst⟩
      · refine .inl ⟨s', hs', hrest, fun id hlt hle => ?_, fun id hid => ?_⟩
        · rcases next_of hlt with rfl | hlt
          · refine ⟨p, hfiles, (hkept _ (.inl (Nat.le_of_eq hval))).trans ?_⟩
            exact Std.ExtTreeMap.getElem?_insert_self
          · exact hfiled id hlt (by omega)
        · have hne : (⟨.clamp (n + 1)⟩ : ProposalId) ≠ id := fun h => by
            rw [← h, hval] at hid
            omega
          refine (hkept id (by omega)).trans ?_
          rw [SortedMap.getElem?_insert, if_neg hne]
      · refine .inr ⟨f, hf, id, by omega, by omega, hbad, fun i hi hilt => ?_⟩
        rcases next_of hi with rfl | hi
        · exact ⟨p, hfiles⟩
        · exact hfirst i hi hilt
    · refine .inr ⟨f, ?_, _, by rw [hval]; omega, by rw [hval]; omega, hbad, fun i hi hlt => ?_⟩
      · rw [loadProposals, hf]
        rfl
      · rw [hval] at hlt
        omega

/-- A snapshot has no proposals. -/
theorem proposals_of_decode {bytes : ByteString}
    (h : Codec.snapshot.decode bytes = .ok s) : s.proposals = ∅ := by
  unfold Codec.decode at h
  rcases hread : Codec.snapshot.read bytes with why | ⟨s', rest⟩
  · rw [hread] at h
    cases h
  · rw [hread] at h
    cases h
    obtain ⟨fields, -, rfl⟩ := Binary.Reader.of_map_ok hread
    rfl

/-- Once the snapshot is read, the records are loaded. -/
theorem load_of_snapshot (working : store.failure = none) {bytes : ByteString}
    (stored : store.metadata[snapshotName]? = some bytes)
    (decoded : Codec.snapshot.decode bytes = .ok s) :
    load store = loadProposals store s 0 s.proposalCount.val := by
  unfold load
  rw [Store.getMetadata_eq working, stored]
  show (Fault.ofReading (Codec.snapshot.decode bytes) >>= fun s =>
    loadProposals store s 0 s.proposalCount.val) = _
  rw [decoded]
  rfl

/-- **Loading answers with what is held, or is refused for what is wrong.** -/
theorem load_spec (working : store.failure = none) :
    (∃ s, load store = .ok s ∧ store.Holds s) ∨ ∃ f, load store = .error f ∧ store.Defect f := by
  rcases hstored : store.metadata[snapshotName]? with _ | bytes
  · refine .inr ⟨_, ?_, .noSnapshot hstored⟩
    unfold load
    rw [Store.getMetadata_eq working, hstored]
    rfl
  rcases hdecoded : Codec.snapshot.decode bytes with why | s
  · refine .inr ⟨_, ?_, .unreadable hstored hdecoded⟩
    unfold load
    rw [Store.getMetadata_eq working, hstored]
    show (Fault.ofReading (Codec.snapshot.decode bytes) >>= fun s =>
      loadProposals store s 0 s.proposalCount.val) = _
    rw [hdecoded]
    rfl
  have hempty := proposals_of_decode hdecoded
  rw [load_of_snapshot working hstored hdecoded]
  have hfits : 0 + s.proposalCount.val < 1 <<< 64 := by
    have := s.proposalCount.val_lt
    omega
  rcases loadProposals_spec (s := s) working hfits with
    ⟨s', hs', hrest, hfiled, hkept⟩ | ⟨f, hf, id, hpos, hle, hbad, hfirst⟩
  · have hcount : s'.proposalCount = s.proposalCount := by rw [hrest]
    refine .inl ⟨s', hs', ⟨bytes, hstored, ?_⟩, fun id hpos hle => ?_, fun id p => ?_⟩
    · rw [hdecoded, hrest, ← hempty]
    · obtain ⟨p, hp, -⟩ := hfiled id hpos (by rw [← hcount]; omega)
      exact ⟨p, hp⟩
    · rw [hcount]
      by_cases hid : 0 < id.val ∧ id.val ≤ s.proposalCount.val
      · obtain ⟨p', hp', hfound⟩ := hfiled id hid.1 (by omega)
        rw [hfound, Option.some.injEq]
        exact ⟨fun h => ⟨hid.1, hid.2, h ▸ hp'⟩, fun h => hp'.eq h.2.2⟩
      · rw [hkept id (by omega), hempty, Std.ExtTreeMap.getElem?_empty]
        exact ⟨fun h => (nomatch h), fun h => absurd ⟨h.1, h.2.1⟩ hid⟩
  · exact .inr ⟨f, hf,
      .record ⟨bytes, hstored, by rw [hdecoded, ← hempty]⟩ hpos (by omega) hbad hfirst⟩

/-- **What is loaded is what the store holds.** -/
theorem load_eq_ok_iff (working : store.failure = none) : load store = .ok s ↔ store.Holds s := by
  rcases load_spec working with ⟨s', hs', hholds⟩ | ⟨f, hf, hdefect⟩
  · rw [hs', Except.ok.injEq]
    exact ⟨fun h => h ▸ hholds, fun h => hholds.eq h⟩
  · rw [hf]
    exact ⟨fun h => (nomatch h), fun h => absurd hdefect h.consistent.not_defect⟩

/-- **Loading answers exactly in a store that is in order.** -/
theorem exists_load_iff (working : store.failure = none) :
    (∃ s, load store = .ok s) ↔ store.Consistent := by
  rcases load_spec working with ⟨s, hs, hholds⟩ | ⟨f, hf, hdefect⟩
  · exact ⟨fun _ => hholds.consistent, fun _ => ⟨s, hs⟩⟩
  · rw [hf]
    exact ⟨fun ⟨s, h⟩ => (nomatch h), fun h => absurd hdefect h.not_defect⟩

/-- **Loading is refused for what is wrong first.** -/
theorem load_eq_error_iff (working : store.failure = none) :
    load store = .error f ↔ store.Defect f := by
  rcases load_spec working with ⟨s', hs', hholds⟩ | ⟨f', hf', hdefect⟩
  · rw [hs']
    exact ⟨fun h => (nomatch h), fun h => absurd h hholds.consistent.not_defect⟩
  · rw [hf', Except.error.injEq]
    exact ⟨fun h => h ▸ hdefect, fun h => hdefect.eq h⟩

end State
end TokenGovernance
