/-
# Reading histories and ledgers

What an ordered history knows of an instant is its last checkpoint at or before it
(`History.Ordered.lookup_eq`): the times increase, so that is the one which the search by halves
finds. Two readings follow, and the theory of the engine uses no others:

| instant | reading |
| --- | --- |
| at or after the last checkpoint | the last value (`History.Ordered.value?_lookup_of_accepts`) |
| before a write | what it was before the write (`History.Ordered.value?_lookup_put`) |

The second leaves out one thing that a write does to the past: a history with its first checkpoint
begins later, where an empty one knows nothing (`History.Ordered.lookup_put`). So two ledgers have
the same past (`Ledger.SamePast`) when they know the same of every account that one of them knew.
-/

import TokenGovernance.Proofs.Ledger

namespace TokenGovernance
namespace History

variable {α : Type} {h : History α} {time now : Timestamp} {value : α}

/-- The checkpoints at or before an instant. -/
def upTo (h : History α) (time : Timestamp) : List (Checkpoint α) :=
  h.checkpoints.filter (·.time ≤ time)

/-- **An ordered history answers with its last checkpoint at or before the instant.** -/
theorem Ordered.lookup_eq (ho : h.Ordered) (time : Timestamp) :
    h.lookup time =
      if h.checkpoints.isEmpty then .noHistory
      else
        match (h.upTo time).getLast? with
        | some c => .found c.value
        | none => .beforeHistory := by
  have hlast := getLast?_filter_time (ho.imp Nat.le_of_lt) time
  unfold lookup upTo
  rw [hlast]
  refine ite_congr rfl (fun _ => rfl) fun _ => ?_
  cases rightmost? h.checkpoints time <;> rfl

/-- What an ordered history tells of an instant is the value of its last checkpoint by then. -/
theorem Ordered.value?_lookup (ho : h.Ordered) (time : Timestamp) :
    (h.lookup time).value? = (h.upTo time).getLast?.map (·.value) := by
  rw [ho.lookup_eq]
  rcases hcs : h.checkpoints with _ | ⟨c, cs⟩
  · simp [upTo, hcs, Lookup.value?]
  · simp only [List.isEmpty_cons, Bool.false_eq_true, if_false]
    cases (h.upTo time).getLast? <;> rfl

/-- At or after its last time an ordered history reads its last value, if it has one. -/
theorem Ordered.value?_lookup_of_accepts (ho : h.Ordered) (ha : h.Accepts now) :
    (h.lookup now).value? = h.latest?.map (·.value) := by
  rcases hl : h.latest? with _ | last
  · have hnil : h.checkpoints = [] := List.getLast?_eq_none_iff.1 hl
    simp [lookup, hnil, Lookup.value?]
  · rw [ho.lookup_latest hl (ha last hl)]
    rfl

/-- At or after the last checkpoint of an ordered history they all count. -/
theorem Ordered.upTo_of_accepts (ho : h.Ordered) (ha : h.Accepts now) :
    h.upTo now = h.checkpoints := by
  refine List.filter_eq_self.2 fun c hc => ?_
  obtain ⟨last, hl⟩ : ∃ last, h.latest? = some last :=
    ⟨_, List.getLast?_eq_some_getLast (List.ne_nil_of_mem hc)⟩
  have hle : c.time.val ≤ last.time.val := ho.time_le hl hc
  exact decide_eq_true (Nat.le_trans hle (ha last hl))

/-- A write adds nothing to what came before it. -/
theorem upTo_put (ht : time < now) (h : History α) (value : α) :
    (h.put now value).upTo time = h.upTo time := by
  have hlate : ¬now ≤ time := Nat.not_le.2 ht
  unfold put upTo
  split
  · rename_i e
    obtain ⟨last, hl, rfl⟩ := Option.map_eq_some_iff.1 e
    obtain ⟨front, hfront⟩ := List.getLast?_eq_some_iff.1 hl
    simp [hfront, List.filter_append, hlate]
  · simp [List.filter_append, hlate]

/-- **A write changes no value of the past.** -/
theorem Ordered.value?_lookup_put (ho : h.Ordered) (ha : h.Accepts now) (ht : time < now)
    (value : α) : ((h.put now value).lookup time).value? = (h.lookup time).value? := by
  rw [(ho.put ha value).value?_lookup, ho.value?_lookup, upTo_put ht]

/-- A write changes the past of an empty history alone, which now begins later. -/
theorem Ordered.lookup_put (ho : h.Ordered) (ha : h.Accepts now) (ht : time < now) (value : α) :
    (h.put now value).lookup time =
      if h.checkpoints.isEmpty then .beforeHistory else h.lookup time := by
  have hne : (h.put now value).checkpoints.isEmpty = false := by
    unfold History.put
    split <;> simp
  rw [(ho.put ha value).lookup_eq, ho.lookup_eq, upTo_put ht, hne]
  rcases hcs : h.checkpoints with _ | ⟨c, cs⟩
  · simp [upTo, hcs]
  · simp

/-- A write that is taken is the last one, so later writes are taken as well. -/
theorem accepts_put (ht : time ≤ now) (h : History α) (value : α) :
    (h.put time value).Accepts now := by
  intro last hl
  rw [latest?_put] at hl
  cases hl
  exact ht

end History

namespace Ledger

variable {l l' l'' : Ledger} {a b : Account} {value : Amount} {time now : Timestamp}

/-- Every history of the ledger is in order. -/
def Ordered (l : Ledger) : Prop := ∀ a, (l.history a).Ordered

/-- A ledger without histories is in order. -/
theorem ordered_empty : ({} : Ledger).Ordered := fun a => by
  simpa [history] using History.ordered_empty

/-- A write that comes in order keeps a ledger in order. -/
theorem Ordered.put (ho : l.Ordered) (ha : (l.history a).Accepts now) (value : Amount) :
    (l.put a value now).Ordered := by
  intro b
  by_cases hb : b = a
  · rw [hb, history_put_self]
    exact (ho a).put ha value
  · rw [history_put_of_ne hb]
    exact ho b

/-- A write at or before an instant leaves every account open to writes at that instant. -/
theorem accepts_put (hl : (l.history b).Accepts now) (ht : time ≤ now) (a : Account)
    (value : Amount) : ((l.put a value time).history b).Accepts now := by
  by_cases hb : b = a
  · rw [hb, history_put_self]
    exact History.accepts_put ht _ value
  · rwa [history_put_of_ne hb]

/-- Nothing is known of an account when it has no history. -/
theorem lookup_eq_noHistory_iff : l.lookup a time = .noHistory ↔ l.hasHistory a = false := by
  unfold lookup History.lookup hasHistory checkpoints
  rcases (l.history a).checkpoints.isEmpty with _ | _
  · simp only [Bool.false_eq_true, if_false, Bool.not_false]
    split <;> simp
  · simp

/-- Whoever was found has a history. -/
theorem hasHistory_of_lookup (h : l.lookup a time = .found value) : l.hasHistory a = true := by
  cases hk : l.hasHistory a with
  | true => rfl
  | false =>
    rw [lookup_eq_noHistory_iff.2 hk] at h
    cases h

/-- At or after the last time of an account its last amount is read. -/
theorem Ordered.valueAt_of_accepts (ho : l.Ordered) (ha : (l.history a).Accepts now) :
    l.valueAt a now = l.latestValue a := by
  unfold valueAt lookup latestValue
  rw [(ho a).value?_lookup_of_accepts ha]
  rcases (l.history a).latest? with _ | last <;> rfl

/-- At or after the last time of an account with a history its last amount is found. -/
theorem Ordered.lookup_of_accepts (ho : l.Ordered) (ha : (l.history a).Accepts now)
    (hk : l.hasHistory a = true) : l.lookup a now = .found (l.latestValue a) := by
  obtain ⟨last, hl⟩ := hasHistory_iff.1 hk
  unfold lookup latestValue
  rw [(ho a).lookup_latest hl (ha last hl), hl]

/-! ### The past of a ledger -/

/-- **A ledger that was written to only after an instant knows of it what it knew.** What it knew
nothing of, it knows at most to have begun later. -/
structure SamePast (l l' : Ledger) (time : Timestamp) : Prop where
  known : ∀ a, l.hasHistory a = true → l'.lookup a time = l.lookup a time
  first : ∀ a, l.hasHistory a = false → l'.hasHistory a = true →
    l'.lookup a time = .beforeHistory

namespace SamePast

/-- Every ledger has its own past. -/
theorem refl (l : Ledger) (time : Timestamp) : l.SamePast l time where
  known _ _ := rfl
  first a hnot hk := by simp [hnot] at hk

/-- A history that was there is still there. -/
theorem hasHistory (h : l.SamePast l' time) (hk : l.hasHistory a = true) :
    l'.hasHistory a = true := by
  have hfound : l'.lookup a time ≠ .noHistory := by
    rw [h.known a hk, Ne, lookup_eq_noHistory_iff, hk]
    exact Bool.noConfusion
  rw [Ne, lookup_eq_noHistory_iff, Bool.not_eq_false] at hfound
  exact hfound

/-- The past is kept over several writes: what a ledger in between first knew had begun later. -/
theorem trans (h : l.SamePast l' time) (h' : l'.SamePast l'' time) : l.SamePast l'' time where
  known a hk := (h'.known a (h.hasHistory hk)).trans (h.known a hk)
  first a hnot hk := by
    cases hk' : l'.hasHistory a with
    | true => exact (h'.known a hk').trans (h.first a hnot hk')
    | false => exact h'.first a hk' hk

/-- Amounts do not tell a history that begins later from none. -/
theorem valueAt_eq (h : l.SamePast l' time) (a : Account) :
    l'.valueAt a time = l.valueAt a time := by
  unfold valueAt
  cases hk : l.hasHistory a with
  | true => rw [h.known a hk]
  | false =>
    rw [lookup_eq_noHistory_iff.2 hk]
    cases hk' : l'.hasHistory a with
    | true => rw [h.first a hk hk']; rfl
    | false => rw [lookup_eq_noHistory_iff.2 hk']

end SamePast

/-- **A write changes no amount of the past.** -/
theorem Ordered.samePast_put (ho : l.Ordered) (ha : (l.history a).Accepts now) (ht : time < now)
    (value : Amount) : l.SamePast (l.put a value now) time := by
  have hlookup (b : Account) : (l.put a value now).lookup b time =
      if b = a ∧ l.hasHistory b = false then .beforeHistory else l.lookup b time := by
    unfold lookup
    by_cases hb : b = a
    · subst hb
      rw [history_put_self, (ho b).lookup_put ha ht]
      simp [hasHistory, checkpoints]
    · rw [history_put_of_ne hb, if_neg fun h => hb h.1]
  constructor
  · intro b hk
    rw [hlookup, if_neg]
    simp [hk]
  · intro b hnot hk
    by_cases hb : b = a
    · rw [hlookup, if_pos ⟨hb, hnot⟩]
    · rw [hasHistory, checkpoints, history_put_of_ne hb] at hk
      rw [hasHistory, checkpoints, hk] at hnot
      cases hnot

end Ledger
end TokenGovernance
