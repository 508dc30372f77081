/-
# Writes of one instant

A history keeps one checkpoint for an instant, so a write replaces an earlier one of the same
instant (`History.put_put`). Two things follow, and they are what the calls of an instant have in
common, in whatever order they come and however many of them there are:

| made by writes of one instant | agree when |
| --- | --- |
| two ledgers | the same accounts were written to, and their last amounts agree |
| what two histories tell of any instant | their last values agree |

These are `Ledger.Touched.ext` and `History.Ordered.getD_lookup_eq`. The second leaves open who was
written to: a checkpoint that repeats the value before it is not seen by any query. A change of
delegate and a change of balance each touch the power of certain delegates and of nobody else
(`Directory.Movable.touched`, `Directory.Carries.touched`).
-/

import TokenGovernance.Proofs.Agreement

namespace TokenGovernance
namespace History

variable {α : Type} {h h₁ h₂ : History α} {now : Timestamp}

/-- **A write replaces an earlier one of the same instant.** -/
theorem put_put (h : History α) (now : Timestamp) (first last : α) :
    (h.put now first).put now last = h.put now last := by
  have htime : (h.put now first).latest?.map (·.time) = some now := by
    rw [latest?_put, Option.map_some]
  rw [put, if_pos htime]
  unfold put
  split <;> simp

/-- What a history can become within an instant: it stays as it is, or takes writes of the instant,
of which the last one counts. -/
def Rewritten (h h' : History α) (now : Timestamp) : Prop :=
  h' = h ∨ h.Accepts now ∧ ∃ value, h' = h.put now value

/-- An instant may write nothing. -/
theorem Rewritten.refl (h : History α) (now : Timestamp) : h.Rewritten h now := .inl rfl

/-- What was rewritten within an instant is rewritten again: the last write replaces the first. -/
theorem Rewritten.trans (hr : h.Rewritten h₁ now) (hr' : h₁.Rewritten h₂ now) :
    h.Rewritten h₂ now := by
  rcases hr' with rfl | ⟨ha', last, rfl⟩
  · exact hr
  · rcases hr with rfl | ⟨ha, first, rfl⟩
    · exact .inr ⟨ha', last, rfl⟩
    · exact .inr ⟨ha, last, put_put h now first last⟩

/-- Before the instant a rewritten history tells what it told. -/
theorem Rewritten.value?_lookup_eq (hr : h.Rewritten h₁ now) (ho : h.Ordered) {time : Timestamp}
    (ht : time < now) : (h₁.lookup time).value? = (h.lookup time).value? := by
  rcases hr with rfl | ⟨ha, value, rfl⟩
  · rfl
  · exact ho.value?_lookup_put ha ht value

/-- From the instant on a history that could be written to then tells its last value. -/
theorem Ordered.value?_lookup_from (ho : h.Ordered) (ha : h.Accepts now) {time : Timestamp}
    (ht : now ≤ time) : (h.lookup time).value? = h.latest?.map (·.value) :=
  ho.value?_lookup_of_accepts fun last hl => Nat.le_trans (ha last hl) ht

/-- **Two histories that an instant made of one tell the same if they end the same.** If neither was
written to they are one history, and else both could have been written to. What stands for an empty
history is `z`. -/
theorem Ordered.getD_lookup_eq (ho : h.Ordered) (hr₁ : h.Rewritten h₁ now)
    (hr₂ : h.Rewritten h₂ now) {z : α}
    (last : (h₁.latest?.map (·.value)).getD z = (h₂.latest?.map (·.value)).getD z)
    (time : Timestamp) : (h₁.lookup time).value?.getD z = (h₂.lookup time).value?.getD z := by
  rcases Nat.lt_or_ge time.val now.val with ht | ht
  · rw [hr₁.value?_lookup_eq ho ht, hr₂.value?_lookup_eq ho ht]
  · have hread {h' : History α} (hr : h.Rewritten h' now) (ha : h.Accepts now) :
        (h'.lookup time).value? = h'.latest?.map (·.value) := by
      rcases hr with rfl | ⟨-, value, rfl⟩
      · exact ho.value?_lookup_from ha ht
      · exact (ho.put ha value).value?_lookup_from (accepts_put (Nat.le_refl _) h value) ht
    by_cases ha : h.Accepts now
    · rw [hread hr₁ ha, hread hr₂ ha, last]
    · obtain rfl := hr₁.resolve_right fun hw => ha hw.1
      obtain rfl := hr₂.resolve_right fun hw => ha hw.1
      rfl

end History

namespace Ledger

variable {l l' l₁ l₂ : Ledger} {a x : Account} {value : Amount} {now : Timestamp}
  {touched touched' touched₁ touched₂ : Account → Prop}

/-- A ledger is told by the histories it has. -/
@[ext] theorem ext (h : ∀ a : Account, l.series[a]? = l'.series[a]?) : l = l' := by
  obtain ⟨series⟩ := l
  obtain ⟨series'⟩ := l'
  exact congrArg mk (Std.ExtTreeMap.ext_getElem? h)

/-- A write changes the history of one account. -/
theorem series_put (l : Ledger) (a : Account) (value : Amount) (now : Timestamp) (x : Account) :
    (l.put a value now).series[x]? =
      if a = x then some ((l.history a).put now value) else l.series[x]? :=
  SortedMap.getElem?_insert ..

/-- **A write to a ledger replaces an earlier one of the same instant for the same account.** -/
theorem put_put (l : Ledger) (a : Account) (first last : Amount) (now : Timestamp) :
    (l.put a first now).put a last now = l.put a last now := by
  ext x
  rw [series_put, series_put, series_put, history_put_self, History.put_put]
  split <;> rfl

/-- The last amount is the last value of the history, or nothing. -/
theorem latestValue_eq_getD (l : Ledger) (a : Account) :
    l.latestValue a = ((l.history a).latest?.map (·.value)).getD .zero := by
  unfold latestValue
  cases (l.history a).latest? <;> rfl

/-- **`l'` is what an instant made of `l`** by writing for the accounts in `touched`, once or more
often, and for nobody else. -/
structure Touched (l l' : Ledger) (touched : Account → Prop) (now : Timestamp) : Prop where
  order : ∀ x, touched x → (l.history x).Accepts now
  written : ∀ x, touched x → l'.series[x]? = some ((l.history x).put now (l'.latestValue x))
  kept : ∀ x, ¬touched x → l'.series[x]? = l.series[x]?

namespace Touched

/-- An instant that touches nobody changes nothing. -/
theorem refl (h : ∀ x, ¬touched x) : l.Touched l touched now where
  order x hx := absurd hx (h x)
  written x hx := absurd hx (h x)
  kept _ _ := rfl

/-- Who was touched is told by its members alone. -/
theorem congr (h : l.Touched l' touched now) (same : ∀ x, touched x ↔ touched' x) :
    l.Touched l' touched' now where
  order x hx := h.order x ((same x).2 hx)
  written x hx := h.written x ((same x).2 hx)
  kept x hx := h.kept x fun hx' => hx ((same x).1 hx')

/-- One write touches one account. -/
theorem put (ha : (l.history a).Accepts now) (value : Amount) :
    l.Touched (l.put a value now) (a = ·) now where
  order := by
    rintro _ rfl
    exact ha
  written := by
    rintro _ rfl
    rw [series_put, if_pos rfl, latestValue_put_self]
  kept x hx := by rw [series_put, if_neg hx]

/-- A touched account has one write more, that of its last amount. -/
theorem history_eq (h : l.Touched l' touched now) (hx : touched x) :
    l'.history x = (l.history x).put now (l'.latestValue x) := by
  rw [history, h.written x hx, Option.getD_some]

/-- An account that is not touched keeps its history. -/
theorem history_eq_of_not (h : l.Touched l' touched now) (hx : ¬touched x) :
    l'.history x = l.history x := by
  rw [history, h.kept x hx, history]

/-- Writes that follow within the instant. -/
theorem trans (h : l.Touched l₁ touched₁ now) (h' : l₁.Touched l₂ touched₂ now) :
    l.Touched l₂ (fun x => touched₁ x ∨ touched₂ x) now where
  order x hx := by
    by_cases h₁ : touched₁ x
    · exact h.order x h₁
    · rw [← h.history_eq_of_not h₁]
      exact h'.order x (hx.resolve_left h₁)
  written x hx := by
    by_cases h₂ : touched₂ x
    · rw [h'.written x h₂]
      by_cases h₁ : touched₁ x
      · rw [h.history_eq h₁, History.put_put]
      · rw [h.history_eq_of_not h₁]
    · have hlast : l₂.latestValue x = l₁.latestValue x := by
        rw [latestValue, h'.history_eq_of_not h₂, latestValue]
      rw [h'.kept x h₂, h.written x (hx.resolve_right h₂), hlast]
  kept x hx := by
    obtain ⟨h₁, h₂⟩ := not_or.1 hx
    rw [h'.kept x h₂, h.kept x h₁]

/-- What becomes of the history of an account within the instant. -/
theorem rewritten (h : l.Touched l' touched now) (x : Account) :
    (l.history x).Rewritten (l'.history x) now := by
  by_cases hx : touched x
  · exact .inr ⟨h.order x hx, _, h.history_eq hx⟩
  · exact .inl (h.history_eq_of_not hx)

/-- **Ledgers with the same accounts written to and the same last amounts are the same.** -/
theorem ext (h₁ : l.Touched l₁ touched now) (h₂ : l.Touched l₂ touched now)
    (last : ∀ x, l₁.latestValue x = l₂.latestValue x) : l₁ = l₂ := by
  ext x
  by_cases hx : touched x
  · rw [h₁.written x hx, h₂.written x hx, last]
  · rw [h₁.kept x hx, h₂.kept x hx]

end Touched
end Ledger

namespace Directory

variable {d d' : Directory} {held held' : Ledger} {delegator source target x : Account}
  {balance old new : Amount} {now : Timestamp}

/-- **A change of delegate touches the power of the old and the new delegate**, but not of the
account itself. -/
theorem Movable.touched (h : d.Movable delegator target balance now) :
    d.power.Touched (d.redelegated delegator target balance now).power
      (fun x => x ≠ delegator ∧ (d.currentDelegate delegator = x ∨ target = x)) now := by
  show d.power.Touched
    (d.movedPower delegator (d.currentDelegate delegator) target balance now) _ now
  unfold movedPower
  by_cases hs : d.currentDelegate delegator = delegator <;> by_cases ht : target = delegator <;>
    simp only [hs, ht, if_true, if_false]
  · exact .refl fun x hx => hx.1 (hx.2.elim Eq.symm Eq.symm)
  · refine (Ledger.Touched.put h.target_order _).congr fun x => ?_
    grind
  · refine (Ledger.Touched.put h.source_order _).congr fun x => ?_
    grind
  · have hsource := Ledger.Touched.put h.source_order
      ((d.power.latestValue (d.currentDelegate delegator)).saturatingSub balance)
    refine (hsource.trans (Ledger.Touched.put ?_ _)).congr fun x => ?_
    · exact Ledger.accepts_put h.target_order (Nat.le_refl _) _ _
    · grind

/-- **A change of balance touches the power of the delegate**, if there is another one and the
balance differs. -/
theorem Carries.touched (h : d.Carries delegator old new now d') :
    d.power.Touched d'.power
      (fun x => x ≠ delegator ∧ old ≠ new ∧ d.currentDelegate delegator = x) now := by
  cases h with
  | kept own => exact .refl fun x hx => own.elim (fun e => hx.1 (hx.2.2.symm.trans e)) hx.2.1
  | carried delegating differs order exact =>
    refine (Ledger.Touched.put order _).congr fun x => ?_
    grind

/-- Power that is backed by the same balances through the same delegates is the same. -/
theorem Backed.latestValue_eq (h : d.Backed held) (h' : d'.Backed held')
    (delegates : ∀ a, d.currentDelegate a = d'.currentDelegate a)
    (balances : ∀ a, held.latestValue a = held'.latestValue a) (x : Account) :
    d.power.latestValue x = d'.power.latestValue x := by
  have hfollowers : d.followers x = d'.followers x := by
    ext a
    rw [mem_followers, mem_followers, delegates]
  refine Quantity.ext ?_
  rw [h.exact, h'.exact, hfollowers]
  exact Finset.sum_congr rfl fun a _ => congrArg Quantity.val (balances a)

/-- Directories that agree with themselves and have the same delegates list the same. A list that is
empty is not kept, so a list that is missing is missing in both. -/
theorem Agrees.delegators_eq (h : d.Agrees held) (h' : d'.Agrees held')
    (delegates : ∀ a, d.currentDelegate a = d'.currentDelegate a) :
    d.delegators = d'.delegators := by
  have hlisted (x : Account) : d.listed x = d'.listed x := by
    refine Std.ExtTreeSet.ext_mem fun a => ?_
    rw [h.listed, h'.listed, delegates]
  refine Std.ExtTreeMap.ext_getElem? fun x => ?_
  have hx : d.delegators[x]?.getD ∅ = d'.delegators[x]?.getD ∅ := hlisted x
  rcases hl : d.delegators[x]? with _ | accounts
  · rcases hl' : d'.delegators[x]? with _ | accounts'
    · rfl
    · rw [hl, hl'] at hx
      exact absurd (hl'.trans (congrArg some hx.symm)) (h'.occupied x)
  · rcases hl' : d'.delegators[x]? with _ | accounts'
    · rw [hl, hl'] at hx
      exact absurd (hl.trans (congrArg some hx)) (h.occupied x)
    · rw [hl, hl'] at hx
      exact congrArg some hx

end Directory
end TokenGovernance
