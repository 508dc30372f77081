/-
# What can be recovered from a store

A store need not have been written by an engine: records may be lost, cut short, filed under other
numbers or followed by rubbish, and a snapshot may tell of the same account twice or give a history
in any order. Loading is exact all the same (`State.recovery`): it answers for the stores that are
in order, with the one state that is held, and names the first thing that is wrong with any other.
A state that was recovered from such a store is as good as any. It can be saved and loaded again,
because what was read once is read again in whatever order it is written (`Spelling.Stable`).
-/

import TokenGovernance.Proofs.Binary.Stable
import TokenGovernance.Proofs.Store

namespace TokenGovernance

open Binary (Codec Spelling)

/-- **A snapshot that was read once is read again from each of its spellings**, part by part. -/
theorem Binary.Spelling.Stable.snapshot : Spelling.snapshot.Stable :=
  bool.pair (parameters.pair (word.pair (voteBook.pair (ledger.pair directory))))

/-- What was decoded is decoded again from each of its spellings. -/
theorem Binary.Spelling.Stable.decode {α : Type} {c : Codec α} {f : Spelling c} (h : f.Stable)
    {v : α} {bytes spelled : ByteString} (decoded : c.decode bytes = .ok v)
    (spells : f.Spells v spelled) : c.decode spelled = .ok v := by
  unfold Codec.decode at decoded ⊢
  rcases hread : c.read bytes with why | ⟨w, rest⟩
  · rw [hread] at decoded
    cases decoded
  · rw [hread] at decoded
    cases decoded
    have hspelled := h.keeps hread spelled spells []
    rw [List.append_nil] at hspelled
    rw [hspelled]
    rfl

namespace Store

variable {store : Store} {s : State}

/-- The proposals of a state that is held are numbered without a gap. -/
theorem Holds.filed (h : store.Holds s) : s.Filed where
  numbered {id p} found := by
    obtain ⟨-, -, -, -, -, hid⟩ := (h.found_iff id p).1 found
    exact hid
  counted {id} := by
    rw [Std.ExtTreeMap.mem_iff_isSome_getElem?, Option.isSome_iff_exists]
    constructor
    · rintro ⟨p, found⟩
      obtain ⟨pos, le, -⟩ := (h.found_iff id p).1 found
      exact ⟨pos, le⟩
    · rintro ⟨pos, le⟩
      obtain ⟨p, files⟩ := h.files id pos le
      exact ⟨p, (h.found_iff id p).2 ⟨pos, le, files⟩⟩

/-- **A state that is held somewhere is held wherever it is saved.** -/
theorem Holds.saved (h : store.Holds s) {snapshot : ByteString} (spelled : s.SpelledBy snapshot)
    (other : Store) : (s.saved other snapshot).Holds s := by
  refine State.holds_saved h.filed ?_ fun {id p} found => ?_
  · obtain ⟨bytes, -, hbytes⟩ := h.snapshots
    exact State.decode_snapshot_iff.2
      (Spelling.Stable.snapshot.decode (State.decode_snapshot_iff.1 hbytes) spelled)
  · obtain ⟨-, -, bytes, -, hbytes, -⟩ := (h.found_iff id p).1 found
    exact Spelling.Stable.proposal.decode hbytes (Spelling.proposal.spells_write p)

end Store

namespace State

/-- **Loading is exact.** In a store that works, whatever is stored in it, loading answers exactly
if the store is in order, that is, if its snapshot can be read and the record of each proposal that
it counts stands under its number; and then with the state that the store holds, whose proposals are
those and no others. In any other store the refusal names the first thing that is wrong, and it is
the storage's. What was loaded can be saved in any store, whatever that holds and in whatever order
the maps and sets of the snapshot are written, and it is loaded from there again. -/
theorem load_exact {store : Store} (working : store.failure = none) :
    ((∃ s, load store = .ok s) ↔ store.Consistent) ∧
    (∀ s, load store = .ok s ↔ store.Holds s) ∧
    (∀ f, load store = .error f ↔ store.Defect f) ∧
    (∀ f, load store = .error f → f.category = .storage) ∧
    ∀ s, load store = .ok s →
      s.save = s.saveAs (Codec.snapshot.write s) ∧ s.SpelledBy (Codec.snapshot.write s) ∧
      ∀ (other : Store) (snapshot : ByteString), other.failure = none → s.SpelledBy snapshot →
        ∃ saved, (s.saveAs snapshot).perform other = (.ok (), saved) ∧ load saved = .ok s := by
  refine ⟨exists_load_iff working, fun s => load_eq_ok_iff working,
    fun f => load_eq_error_iff working, fun f hf => ((load_eq_error_iff working).1 hf).category,
    fun s hs => ⟨s.save_eq_saveAs, s.spelledBy_write, fun other snapshot hother spelled => ?_⟩⟩
  have hsaved := ((load_eq_ok_iff working).1 hs).saved spelled other
  have hworking : (s.saved other snapshot).failure = none := hother
  exact ⟨_, perform_saveAs hother s snapshot, (load_eq_ok_iff hworking).2 hsaved⟩

/-- A snapshot that names an account twice, the second time with a history that goes back in time,
with a byte too many; a record with a byte too many, and two records that are none under numbers
that are not counted. -/
theorem load_exact_of_rubbish :
    let alice : Account := ⟨"civ_alice", by decide⟩
    let first : Checkpoint Amount := ⟨⟨⟨1, by decide⟩⟩, ⟨5, by decide⟩⟩
    let second : Checkpoint Amount := ⟨⟨⟨2, by decide⟩⟩, ⟨7, by decide⟩⟩
    let draft : Draft := ⟨"raise", "", .external alice, [1], .zero⟩
    let p : Proposal := { draft with
      id := .first
      proposer := alice
      contentHash := draft.contentHash
      tally := {}
      createdAt := ⟨⟨2, by decide⟩⟩
      startTime := ⟨⟨3, by decide⟩⟩
      endTime := ⟨⟨4, by decide⟩⟩
      executed := false
      canceled := false
      armedAt := none }
    let snapshot := Codec.bool.write true ++ (Codec.parameters.write {} ++
      (Codec.word.write ⟨1, by decide⟩ ++ (Codec.voteBook.write {} ++
      ((Codec.account.pair (Codec.history Codec.amount)).list.write
          [(alice, ⟨[first]⟩), (alice, ⟨[second, first]⟩)] ++
        (Codec.directory.write {} ++ [9])))))
    let store : Store :=
      { proposals := ((Std.ExtTreeMap.empty.insert ⟨.zero⟩ [0]).insert .first
          (Codec.proposal.write p ++ [9])).insert ⟨⟨2, by decide⟩⟩ [2]
        metadata := Std.ExtTreeMap.empty.insert snapshotName snapshot }
    ∃ s saved, load store = .ok s ∧ (s.held.history alice).checkpoints = [second, first] ∧
      Codec.snapshot.write s ≠ snapshot ∧ s.save.perform store = (.ok (), saved) ∧
      load saved = .ok s := by
  intro alice first second draft p snapshot store
  have hfound : (load store).toOption.map (fun s =>
      ((s.held.history alice).checkpoints, Codec.snapshot.write s == snapshot)) =
      some ([second, first], false) := by decide +kernel
  have hworking : store.failure = none := rfl
  obtain ⟨-, -, -, -, hreloaded⟩ := load_exact hworking
  rcases hloaded : load store with why | s <;> rw [hloaded] at hfound
  · cases hfound
  · obtain ⟨hhistory, hother⟩ := Prod.ext_iff.1 (Option.some.inj hfound)
    obtain ⟨hsave, hspelled, hreloaded⟩ := hreloaded s hloaded
    obtain ⟨saved, hsaved, hagain⟩ := hreloaded store _ hworking hspelled
    exact ⟨s, saved, rfl, hhistory, beq_eq_false_iff_ne.1 hother, hsave ▸ hsaved, hagain⟩

end State
end TokenGovernance
