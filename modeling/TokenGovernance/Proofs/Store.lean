/-
# Saved and loaded

A state is split when it is saved: a record for each proposal, and a snapshot of the rest, in which
the maps and sets may stand in any order (`State.SpelledBy`). Loading puts it together again
(`State.load_saved`), from a store that may have held anything before: saving wrote every record
that loading will look at, because the proposals are numbered from one to the count that the
snapshot tells (`State.Filed`), so the store holds the state (`State.holds_saved`). An operation of
the store that fails refuses what needs it and falsifies nothing, so what is loaded is what was
saved in any store (`State.eq_of_load`).
-/

import TokenGovernance.Proofs.Loading
import TokenGovernance.Proofs.Procedure

namespace TokenGovernance

open Binary (Codec)

/-- The spellings of all of a state but its proposals. -/
def Binary.Spelling.snapshot :
    Spelling (Codec.bool.pair (Codec.parameters.pair (Codec.word.pair
      (Codec.voteBook.pair (Codec.ledger.pair Codec.directory))))) :=
  bool.pair (parameters.pair (word.pair (voteBook.pair (ledger.pair directory))))

/-- Values that correspond to values of another type are decoded as those. -/
theorem Binary.Codec.decode_imap {α β : Type} {c : Codec α} {pack : α → β} {unpack : β → α}
    {bytes : ByteString} : (c.imap pack unpack).decode bytes = (c.decode bytes).map pack := by
  show Except.map Prod.fst (c.read bytes >>= fun v => pure (pack v.1, v.2)) = _
  unfold decode
  rcases c.read bytes with why | ⟨v, rest⟩ <;> rfl

/-- What is spelled is decoded. -/
theorem Binary.Spelling.decode {α : Type} {c : Codec α} (f : Spelling c) {v : α}
    {bytes : ByteString} (h : f.Spells v bytes) (short : bytes.length < 1 <<< 64) :
    c.decode bytes = .ok v := by
  have hread := f.read h short []
  rw [List.append_nil] at hread
  rw [Codec.decode, hread]
  rfl

namespace State

/-- Whether a row of bytes is a snapshot of a state. -/
def SpelledBy (s : State) (bytes : ByteString) : Prop :=
  Binary.Spelling.snapshot.Spells
    (s.initialized, s.parameters, s.proposalCount, s.votes, s.held, s.delegation) bytes

/-- Stores the state with a given snapshot. -/
def saveAs (s : State) (snapshot : ByteString) : Procedure Store Unit := do
  s.proposals.toList.forM fun (id, p) => Store.putProposal id (Codec.proposal.write p)
  Store.putMetadata snapshotName snapshot

/-- The records of the proposals. -/
def records (s : State) : List (ProposalId × ByteString) :=
  s.proposals.toList.map fun (id, p) => (id, Codec.proposal.write p)

/-- A store in which a state was saved with a given snapshot. -/
def saved (s : State) (store : Store) (snapshot : ByteString) : Store :=
  { store with
    proposals := store.proposals.insertMany s.records
    metadata := store.metadata.insert snapshotName snapshot }

/-- The proposals are stored under their numbers, which are those from one to their count. -/
structure Filed (s : State) : Prop where
  numbered : ∀ {id : ProposalId} {p : Proposal}, s.proposals[id]? = some p → p.id = id
  counted : ∀ {id : ProposalId},
    id ∈ s.proposals ↔ 0 < id.val ∧ id.val ≤ s.proposalCount.val

/-- The records of the proposals are shorter than a count can tell, as any row of bytes in memory
is. -/
def Recordable (s : State) : Prop := ∀ record ∈ s.records, record.2.length < 1 <<< 64

instance (s : State) : Decidable s.Recordable :=
  inferInstanceAs (Decidable (∀ record ∈ s.records, record.2.length < 1 <<< 64))

variable {s : State} {store : Store} {snapshot : ByteString} {id : ProposalId} {p : Proposal}

/-! ### Saving -/

/-- The record of a proposal is among those that are saved, under its number. -/
theorem mem_records (found : s.proposals[id]? = some p) :
    (id, Codec.proposal.write p) ∈ s.records :=
  List.mem_map.2 ⟨(id, p), Std.ExtTreeMap.mem_toList_iff_getElem?_eq_some.2 found, rfl⟩

/-- What the library writes is one of the snapshots. -/
theorem spelledBy_write (s : State) : s.SpelledBy (Codec.snapshot.write s) :=
  Binary.Spelling.snapshot.spells_write _

/-- Saving is saving with the snapshot that the library writes. -/
theorem save_eq_saveAs (s : State) : s.save = s.saveAs (Codec.snapshot.write s) := rfl

/-- A store that works takes the record of a proposal. -/
theorem perform_putProposal (working : store.failure = none) (id : ProposalId)
    (bytes : ByteString) :
    (Store.putProposal id bytes).perform store =
      (.ok (), { store with proposals := store.proposals.insert id bytes }) := by
  unfold Store.putProposal
  rw [Procedure.perform_bind_ok (Procedure.perform_get store), Store.check_eq_ok working]
  rfl

/-- A store that works takes metadata. -/
theorem perform_putMetadata (working : store.failure = none) (name : String)
    (bytes : ByteString) :
    (Store.putMetadata name bytes).perform store =
      (.ok (), { store with metadata := store.metadata.insert name bytes }) := by
  unfold Store.putMetadata
  rw [Procedure.perform_bind_ok (Procedure.perform_get store), Store.check_eq_ok working]
  rfl

/-- Records are put one after the other. -/
theorem perform_putProposals (working : store.failure = none)
    (proposals : List (ProposalId × Proposal)) :
    (proposals.forM fun (id, p) => Store.putProposal id (Codec.proposal.write p)).perform store =
      (.ok (), { store with
        proposals := store.proposals.insertMany
          (proposals.map fun (id, p) => (id, Codec.proposal.write p)) }) := by
  induction proposals generalizing store with
  | nil => rw [List.map_nil, Std.ExtTreeMap.insertMany_nil]; rfl
  | cons entry proposals ih =>
    obtain ⟨id, p⟩ := entry
    rw [List.map_cons, Std.ExtTreeMap.insertMany_cons]
    exact (Procedure.perform_bind_ok (perform_putProposal working id _)).trans (ih working)

/-- **Saving answers, in a store that works.** -/
theorem perform_saveAs (working : store.failure = none) (s : State) (snapshot : ByteString) :
    (s.saveAs snapshot).perform store = (.ok (), s.saved store snapshot) := by
  let recorded : Store := { store with proposals := store.proposals.insertMany s.records }
  have hrecords := perform_putProposals working s.proposals.toList
  have hrecorded : recorded.failure = none := working
  have hsnapshot := perform_putMetadata hrecorded snapshotName snapshot
  exact (Procedure.perform_bind_ok hrecords).trans hsnapshot

/-- The record of a proposal that was saved, whatever was stored under its number. -/
theorem getElem?_saved (found : s.proposals[id]? = some p) (store : Store)
    (snapshot : ByteString) :
    (s.saved store snapshot).proposals[id]? = some (Codec.proposal.write p) := by
  have hdistinct : s.records.Pairwise fun a b => ¬compare a.1 b.1 = .eq :=
    List.pairwise_map.2 Std.ExtTreeMap.distinct_keys_toList
  exact Std.ExtTreeMap.getElem?_insertMany_list_of_mem Std.ReflCmp.compare_self hdistinct
    (mem_records found)

/-! ### Loading -/

/-- A snapshot of a state is decoded as its fields, without the proposals. -/
theorem decode_snapshot_iff {bytes : ByteString} :
    Codec.snapshot.decode bytes = .ok { s with proposals := ∅ } ↔
      (Codec.bool.pair (Codec.parameters.pair (Codec.word.pair (Codec.voteBook.pair
        (Codec.ledger.pair Codec.directory))))).decode bytes =
      .ok (s.initialized, s.parameters, s.proposalCount, s.votes, s.held, s.delegation) := by
  rw [Codec.snapshot, Codec.decode_imap]
  rcases Codec.decode _ bytes with why | fields
  · exact ⟨fun h => (nomatch h), fun h => (nomatch h)⟩
  · constructor
    · intro h
      obtain ⟨initialized, parameters, count, votes, held, delegation⟩ := fields
      cases s
      cases h
      rfl
    · intro h
      rw [Except.ok.inj h]
      rfl

/-- A snapshot is decoded as all of the state but its proposals. -/
theorem decode_snapshot (spelled : s.SpelledBy snapshot) (short : snapshot.length < 1 <<< 64) :
    Codec.snapshot.decode snapshot = .ok { s with proposals := ∅ } :=
  decode_snapshot_iff.2 (Binary.Spelling.snapshot.decode spelled short)

/-- **A store in which a state was saved holds it**, whatever it held before, if what was written
can be read. -/
theorem holds_saved (filed : s.Filed)
    (snapshots : Codec.snapshot.decode snapshot = .ok { s with proposals := ∅ })
    (readable : ∀ {id : ProposalId} {p : Proposal}, s.proposals[id]? = some p →
      Codec.proposal.decode (Codec.proposal.write p) = .ok p) :
    (s.saved store snapshot).Holds s := by
  have hstored : (s.saved store snapshot).metadata[snapshotName]? = some snapshot :=
    Std.ExtTreeMap.getElem?_insert_self
  have hfiles {id : ProposalId} {p : Proposal} (found : s.proposals[id]? = some p) :
      (s.saved store snapshot).Files id p :=
    ⟨_, getElem?_saved found store snapshot, readable found, filed.numbered found⟩
  have hfound {id : ProposalId} (pos : 0 < id.val) (le : id.val ≤ s.proposalCount.val) :
      ∃ p, s.proposals[id]? = some p :=
    ⟨_, Std.ExtTreeMap.getElem?_eq_some_getElem (filed.counted.2 ⟨pos, le⟩)⟩
  refine ⟨⟨_, hstored, snapshots⟩, fun id pos le => ?_, fun id p => ⟨fun found => ?_, ?_⟩⟩
  · obtain ⟨p, found⟩ := hfound pos le
    exact ⟨p, hfiles found⟩
  · have hmem := Std.ExtTreeMap.mem_iff_isSome_getElem?.2 (by rw [found]; rfl)
    exact ⟨(filed.counted.1 hmem).1, (filed.counted.1 hmem).2, hfiles found⟩
  · rintro ⟨pos, le, files⟩
    obtain ⟨p', found⟩ := hfound pos le
    rw [found, (hfiles found).eq files]

/-- **What was saved is loaded**, whatever the store held before and in whatever order the snapshot
was written. -/
theorem load_saved (working : store.failure = none) (filed : s.Filed) (recordable : s.Recordable)
    (spelled : s.SpelledBy snapshot) (short : snapshot.length < 1 <<< 64) :
    load (s.saved store snapshot) = .ok s := by
  have hworking : (s.saved store snapshot).failure = none := working
  refine (load_eq_ok_iff hworking).2 (holds_saved filed (decode_snapshot spelled short) ?_)
  intro id p found
  exact Binary.Spelling.proposal.decode (Binary.Spelling.proposal.spells_write p)
    (recordable _ (mem_records found))

/-! ### Stores in which something fails -/

end State

namespace Store

variable {α β : Type} {store : Store} {id : ProposalId} {name : String} {bytes : ByteString}

/-- The store with nothing failing any more. -/
def repaired (store : Store) : Store := { store with failure := none }

/-- **What is answered although something fails is answered alike when nothing does.** -/
structure Steady (p : Procedure Store α) : Prop where
  perform_repaired {store written : Store} {a : α} (h : p.perform store = (.ok a, written)) :
    p.perform store.repaired = (.ok a, written.repaired)

/-- A write that is checked first. -/
theorem Steady.write (operation : Operation) {f : Store → Store}
    (hf : ∀ store, f store.repaired = (f store).repaired) :
    Steady (do (← get).check operation; modify f) := by
  refine ⟨fun {store written a} h => ?_⟩
  rw [Procedure.perform_bind_ok (Procedure.perform_get store)] at h
  rw [Procedure.perform_bind_ok (Procedure.perform_get store.repaired),
    check_eq_ok rfl operation]
  rcases hcheck : store.check operation with why | _ <;> rw [hcheck] at h <;> cases h
  exact congrArg (Prod.mk (Except.ok ())) (hf store)

/-- Storing a record is checked first. -/
theorem steady_putProposal (id : ProposalId) (bytes : ByteString) :
    Steady (putProposal id bytes) :=
  .write .putProposal (f := fun s => { s with proposals := s.proposals.insert id bytes })
    fun _ => rfl

/-- Storing metadata is checked first. -/
theorem steady_putMetadata (name : String) (bytes : ByteString) :
    Steady (putMetadata name bytes) :=
  .write .putMetadata (f := fun s => { s with metadata := s.metadata.insert name bytes })
    fun _ => rfl

/-- Steady procedures in a row are steady. -/
theorem Steady.bind {p : Procedure Store α} {k : α → Procedure Store β} (hp : Steady p)
    (hk : ∀ a, Steady (k a)) : Steady (p >>= k) := by
  refine ⟨fun {store written b} h => ?_⟩
  rw [Procedure.perform_bind] at h
  rcases hfirst : p.perform store with ⟨f | a, middle⟩ <;> rw [hfirst] at h
  · cases h
  · rw [Procedure.perform_bind_ok (hp.perform_repaired hfirst)]
    exact (hk a).perform_repaired h

/-- A steady procedure for each item of a row is steady. -/
theorem Steady.forM {k : α → Procedure Store PUnit} (hk : ∀ a, Steady (k a)) (row : List α) :
    Steady (row.forM k) := by
  induction row with
  | nil => exact ⟨fun h => by cases h; rfl⟩
  | cons a row ih => exact .bind (hk a) fun _ => ih

/-- A record that is given out is given out when nothing fails. -/
theorem getProposal_repaired (h : store.getProposal id = .ok bytes) :
    store.repaired.getProposal id = .ok bytes := by
  obtain ⟨_, -, h⟩ := Fault.bind_eq_ok_iff.1 h
  exact Fault.bind_eq_ok_iff.2 ⟨(), check_eq_ok rfl _, h⟩

/-- Metadata that are given out are given out when nothing fails. -/
theorem getMetadata_repaired {found : Option ByteString}
    (h : store.getMetadata name = .ok found) :
    store.repaired.getMetadata name = .ok found := by
  obtain ⟨_, -, h⟩ := Fault.bind_eq_ok_iff.1 h
  exact Fault.bind_eq_ok_iff.2 ⟨(), check_eq_ok rfl _, h⟩

end Store

namespace State

variable {s restored : State} {store saved : Store} {snapshot : ByteString} {id : ProposalId}
  {p : Proposal}

/-- Saving is steady: it is writes alone. -/
theorem steady_saveAs (s : State) (snapshot : ByteString) :
    Store.Steady (s.saveAs snapshot) :=
  .bind (.forM (fun _ => Store.steady_putProposal _ _) _) fun _ => Store.steady_putMetadata _ _

/-- A record that is loaded is loaded when nothing fails. -/
theorem loadProposal_repaired (h : loadProposal store id = .ok p) :
    loadProposal store.repaired id = .ok p := by
  obtain ⟨bytes, hbytes, h⟩ := Fault.bind_eq_ok_iff.1 h
  exact Fault.bind_eq_ok_iff.2 ⟨bytes, Store.getProposal_repaired hbytes, h⟩

/-- Records that are loaded one after the other are loaded when nothing fails. -/
theorem loadProposals_repaired {n remaining : Nat}
    (h : loadProposals store s n remaining = .ok restored) :
    loadProposals store.repaired s n remaining = .ok restored := by
  induction remaining generalizing s n with
  | zero => exact h
  | succ remaining ih =>
    obtain ⟨p, hp, h⟩ := Fault.bind_eq_ok_iff.1 h
    exact Fault.bind_eq_ok_iff.2 ⟨p, loadProposal_repaired hp, ih h⟩

/-- **A state that is loaded although something fails is loaded when nothing does.** -/
theorem load_repaired (h : load store = .ok restored) : load store.repaired = .ok restored := by
  obtain ⟨found, hfound, h⟩ := Fault.bind_eq_ok_iff.1 h
  refine Fault.bind_eq_ok_iff.2 ⟨found, Store.getMetadata_repaired hfound, ?_⟩
  cases found with
  | none => exact h
  | some bytes =>
    obtain ⟨s, hs, h⟩ := Fault.bind_eq_ok_iff.1 h
    exact Fault.bind_eq_ok_iff.2 ⟨s, hs, loadProposals_repaired h⟩

/-- **What is loaded is what was saved**, also where some operation of the store fails. -/
theorem eq_of_load (filed : s.Filed) (recordable : s.Recordable) (spelled : s.SpelledBy snapshot)
    (short : snapshot.length < 1 <<< 64)
    (stored : (s.saveAs snapshot).perform store = (.ok (), saved))
    (loaded : load saved = .ok restored) : restored = s := by
  have hstored := (s.steady_saveAs snapshot).perform_repaired stored
  rw [perform_saveAs rfl, Prod.mk.injEq] at hstored
  have hloaded := load_repaired loaded
  rw [← hstored.2, load_saved rfl filed recordable spelled short] at hloaded
  exact (Except.ok.inj hloaded).symm

end State
end TokenGovernance
