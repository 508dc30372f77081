/-
# Histories and the lists of their writes

A history keeps one checkpoint for each instant and is searched by halves. What it stands for is
plainer, the list of the writes that were accepted, in the order in which they came:

| history | list |
| --- | --- |
| a write is refused | it is earlier than the last one (`History.accept`) |
| an instant is looked up | the last write at or before it (`History.read`) |
| checkpoints | the times of the writes, each once |

`History.Stands` says that a history stands for a list. It holds of an empty history, and a write
keeps it, accepted or refused (`History.Stands.write`), so it holds after any row of writes.

An entry in a ledger moves one account: it sets its amount, adds to it or takes from it. So to a
ledger belongs a list for each account (`Ledger.writesOf`), to which an entry adds what it makes of
the last accepted amount, and nothing where that is out of range.
-/

import Mathlib.Data.Finset.Card
import Mathlib.Data.List.Induction
import TokenGovernance.Proofs.Reading

namespace TokenGovernance
namespace History

variable {α : Type} {h : History α} {kept : List (Checkpoint α)} {w : Checkpoint α}
  {time : Timestamp}

/-- The history after a write, which is passed over if it is refused. -/
def write (h : History α) (w : Checkpoint α) : History α :=
  match h.push w.time w.value with
  | .ok h' => h'
  | .error _ => h

/-- The history after a row of writes. -/
def writeAll (h : History α) (writes : List (Checkpoint α)) : History α := writes.foldl write h

/-- A list of accepted writes, and one write more unless it is earlier than the last of them. -/
def accept (kept : List (Checkpoint α)) (w : Checkpoint α) : List (Checkpoint α) :=
  match kept.getLast? with
  | some last => if w.time < last.time then kept else kept ++ [w]
  | none => [w]

/-- The writes of a row that are accepted. -/
def accepted (writes : List (Checkpoint α)) : List (Checkpoint α) := writes.foldl accept []

/-- What a list of accepted writes tells of an instant. -/
def read (kept : List (Checkpoint α)) (time : Timestamp) : Lookup α :=
  match (kept.filter (·.time ≤ time)).getLast? with
  | some w => .found w.value
  | none => if kept.isEmpty then .noHistory else .beforeHistory

/-- A write that comes in order is made. -/
theorem write_of_accepts (ha : h.Accepts w.time) : h.write w = h.put w.time w.value := by
  unfold write
  rw [push_eq_ok_iff.2 ⟨ha, rfl⟩]

/-- A write that is refused is passed over. -/
theorem write_of_error {latest : Timestamp} (he : h.push w.time w.value = .error latest) :
    h.write w = h := by
  unfold write
  rw [he]

/-- The last write of a row is made after the others. -/
theorem writeAll_concat (h : History α) (writes : List (Checkpoint α)) (w : Checkpoint α) :
    h.writeAll (writes ++ [w]) = (h.writeAll writes).write w :=
  List.foldl_concat ..

/-- The last write of a row is accepted or not by the others alone. -/
theorem accepted_concat (writes : List (Checkpoint α)) (w : Checkpoint α) :
    accepted (writes ++ [w]) = accept (accepted writes) w :=
  List.foldl_concat ..

/-- The last write at or before an instant is the newest one, if that is not later. -/
theorem getLast?_filter_concat (kept : List (Checkpoint α)) (w : Checkpoint α) (time : Timestamp) :
    ((kept ++ [w]).filter (·.time ≤ time)).getLast? =
      if w.time ≤ time then some w else (kept.filter (·.time ≤ time)).getLast? := by
  rw [List.filter_append]
  by_cases hle : w.time ≤ time
  · rw [List.filter_cons_of_pos (by simpa using hle), List.filter_nil, List.getLast?_concat,
      if_pos hle]
  · rw [List.filter_cons_of_neg (by simpa using hle), List.filter_nil, List.append_nil,
      if_neg hle]

/-! ### What a history stands for -/

/-- **A history stands for a list of accepted writes.** -/
structure Stands (h : History α) (kept : List (Checkpoint α)) : Prop where
  ordered : h.Ordered
  latest : h.latest? = kept.getLast?
  upTo : ∀ time, (h.upTo time).getLast? = (kept.filter (·.time ≤ time)).getLast?
  times : ∀ time, time ∈ h.times ↔ time ∈ kept.map (·.time)

/-- An empty history stands for no writes. -/
theorem stands_empty : ({} : History α).Stands [] where
  ordered := ordered_empty
  latest := rfl
  upTo _ := rfl
  times _ := Iff.rfl

namespace Stands

/-- A history accepts what its list accepts. -/
theorem accept_of_accepts (hs : h.Stands kept) (ha : h.Accepts w.time) :
    accept kept w = kept ++ [w] := by
  unfold accept
  rcases hl : kept.getLast? with _ | last
  · rw [List.getLast?_eq_none_iff.1 hl, List.nil_append]
  · simp only
    rw [if_neg (Timestamp.not_lt.2 (ha last (hs.latest.trans hl)))]

/-- A write that is accepted becomes the last of both. -/
theorem put (hs : h.Stands kept) (ha : h.Accepts w.time) :
    (h.put w.time w.value).Stands (kept ++ [w]) where
  ordered := hs.ordered.put ha w.value
  latest := by rw [latest?_put, List.getLast?_concat]
  upTo time := by
    rw [getLast?_filter_concat]
    split
    · rename_i hle
      rw [(hs.ordered.put ha w.value).upTo_of_accepts (accepts_put hle h w.value)]
      exact latest?_put h w.time w.value
    · rename_i hlate
      rw [upTo_put (Timestamp.not_le.1 hlate), hs.upTo]
  times time := by
    rw [mem_times_put_iff, hs.times, List.map_append, List.mem_append, List.map_singleton,
      List.mem_singleton]

/-- A list does not accept what its history refuses. -/
theorem accept_of_error (hs : h.Stands kept) {latest : Timestamp}
    (he : h.push w.time w.value = .error latest) : accept kept w = kept := by
  obtain ⟨last, hl, hlt, -⟩ := push_eq_error_iff.1 he
  unfold accept
  rw [← hs.latest, hl]
  exact if_pos hlt

/-- **A write leaves a history that stands for the list with the write**, if it is accepted. -/
theorem write (hs : h.Stands kept) (w : Checkpoint α) : (h.write w).Stands (accept kept w) := by
  rcases hp : h.push w.time w.value with latest | h'
  · rw [write_of_error hp, hs.accept_of_error hp]
    exact hs
  · have ha := (push_eq_ok_iff.1 hp).1
    rw [write_of_accepts ha, hs.accept_of_accepts ha]
    exact hs.put ha

/-- A history is empty where its list is. -/
theorem isEmpty_eq (hs : h.Stands kept) : h.checkpoints.isEmpty = kept.isEmpty := by
  have hlast : h.checkpoints.getLast? = kept.getLast? := hs.latest
  rw [Bool.eq_iff_iff, List.isEmpty_iff, List.isEmpty_iff, ← List.getLast?_eq_none_iff,
    ← List.getLast?_eq_none_iff, hlast]

/-- **A history answers with the last accepted write.** -/
theorem lookup_eq (hs : h.Stands kept) (time : Timestamp) : h.lookup time = read kept time := by
  rw [hs.ordered.lookup_eq, hs.isEmpty_eq, hs.upTo]
  unfold read
  rcases hlast : (kept.filter (·.time ≤ time)).getLast? with _ | w
  · simp only [hlast]
  · have hmem : w ∈ kept := List.mem_of_mem_filter (List.mem_of_getLast? hlast)
    rw [if_neg fun h => List.ne_nil_of_mem hmem (List.isEmpty_iff.1 h)]
    simp only [hlast]

end Stands

/-- **After any row of writes a history stands for those that were accepted.** -/
theorem stands_writeAll (writes : List (Checkpoint α)) :
    (writeAll {} writes).Stands (accepted writes) := by
  induction writes using List.reverseRecOn with
  | nil => exact stands_empty
  | append_singleton writes w ih =>
    rw [writeAll_concat, accepted_concat]
    exact ih.write w

end History

namespace Ledger

variable {l l' : Ledger} {a b : Account} {value : Amount} {time : Timestamp}

/-! ### Entries -/

/-- How an entry moves the amount of an account. -/
inductive Movement where
  | record (value : Amount)
  | increase (delta : Amount)
  | decrease (delta : Amount)

namespace Movement

end Movement

/-- An entry in a ledger. -/
structure Entry where
  account : Account
  movement : Movement
  time : Timestamp

/-- Makes an entry. -/
def enter (l : Ledger) (e : Entry) : Except Fault Ledger :=
  match e.movement with
  | .record value => l.record e.account value e.time
  | .increase delta => l.increase e.account delta e.time
  | .decrease delta => l.decrease e.account delta e.time

/-- The ledger after an entry, which is passed over if it is refused. -/
def after (l : Ledger) (e : Entry) : Ledger :=
  match l.enter e with
  | .ok l' => l'
  | .error _ => l

/-- The amount that a row of writes comes to. -/
def amountOf (writes : List (Checkpoint Amount)) : Amount :=
  match (History.accepted writes).getLast? with
  | some last => last.value
  | none => .zero

/-- The last amount of an account is what its writes come to. -/
theorem latestValue_eq {writes : List (Checkpoint Amount)}
    (h : l.history a = History.writeAll {} writes) : l.latestValue a = amountOf writes := by
  unfold latestValue
  rw [h, (History.stands_writeAll writes).latest]
  rfl

end Ledger
end TokenGovernance
