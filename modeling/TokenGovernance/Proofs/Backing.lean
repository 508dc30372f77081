/-
# Delegated power is backed by balances

The power of a delegate is kept as a running total: each change of a balance or of a delegate adds
and takes a difference. `Directory.Backed` says that the total is right, that is, the power of each
delegate is the exact sum of what its followers hold.

| clause | what it is for |
| --- | --- |
| `exact` | the total itself |
| `known` | a follower has a recorded balance, so what is taken from its delegate is that balance |
| `ordered` | a balance asked for at an accepted instant is the last recorded one |

A change concerns one account, and an account adds to the power of one delegate at most
(`Directory.share`). So a change is right when it replaces the share of the account in each power
(`Directory.sum_held_add_share`), whatever the other accounts hold.
-/

import Mathlib.Algebra.BigOperators.Group.Finset.Basic
import TokenGovernance.Proofs.Delegation

namespace TokenGovernance

/-- What holds of keys alone is held by the keys that it holds of. -/
theorem AccountMap.mem_filter_keys {α : Type} {m : AccountMap α} {p : Account → Prop}
    [DecidablePred p] {a : Account} (hp : a ∉ m → ¬p a) :
    a ∈ m.keys.toFinset.filter p ↔ p a := by
  rw [Finset.mem_filter, List.mem_toFinset, Std.ExtTreeMap.mem_keys]
  exact ⟨fun h => h.2, fun h => ⟨by_contra fun hmem => hp hmem h, h⟩⟩

namespace Directory

variable {d d' : Directory} {held held' : Ledger} {a b delegator source target x : Account}
  {balance old new : Amount} {now : Timestamp}

/-! ### Followers -/

/-- The other accounts whose delegate is `x`. -/
def followers (d : Directory) (x : Account) : Finset Account :=
  d.records.keys.toFinset.filter fun a => a ≠ x ∧ d.currentDelegate a = x

/-- The followers of an account are the others whose delegate it is; an account without a record is
none of them, since it votes for itself. -/
theorem mem_followers : a ∈ d.followers x ↔ a ≠ x ∧ d.currentDelegate a = x := by
  refine AccountMap.mem_filter_keys fun hmem h => ?_
  have hself : d.currentDelegate a = a := by
    unfold currentDelegate
    rw [Std.ExtTreeMap.getElem?_eq_none hmem]
  exact h.1 (hself.symm.trans h.2)

/-- What an account that holds `balance` adds to the power of `x`. -/
def share (delegate a x : Account) (balance : Amount) : Nat :=
  if a ≠ x ∧ delegate = x then balance.val else 0

/-- What an account holds is no part of the power that is delegated to it. -/
@[simp] theorem share_self (delegate x : Account) (balance : Amount) :
    share delegate x x balance = 0 :=
  if_neg fun h => h.1 rfl

/-- All that a follower holds is its share. -/
theorem share_delegate (h : a ≠ x) (balance : Amount) : share x a x balance = balance.val :=
  if_pos ⟨h, rfl⟩

/-- An account has no share in the power of anyone but its delegate. -/
theorem share_of_ne (h : b ≠ x) (a : Account) (balance : Amount) : share b a x balance = 0 :=
  if_neg fun h' => h h'.2

/-- The followers of `x` hold what an account adds to its power and what the others hold. -/
theorem sum_followers (d : Directory) (held : Ledger) (a x : Account) :
    ∑ b ∈ d.followers x, (held.latestValue b).val =
      share (d.currentDelegate a) a x (held.latestValue a) +
        ∑ b ∈ (d.followers x).erase a, (held.latestValue b).val := by
  unfold share
  by_cases h : a ∈ d.followers x
  · rw [if_pos (mem_followers.1 h)]
    exact (Finset.add_sum_erase _ (fun b => (held.latestValue b).val) h).symm
  · rw [if_neg fun h' => h (mem_followers.2 h'), Finset.erase_eq_of_notMem h, Nat.zero_add]

/-- **Only the share of the account that changed makes a difference.** -/
theorem sum_held_add_share (hd : ∀ b ≠ a, d'.currentDelegate b = d.currentDelegate b)
    (hh : ∀ b ≠ a, held'.latestValue b = held.latestValue b) (x : Account) :
    ∑ b ∈ d'.followers x, (held'.latestValue b).val +
        share (d.currentDelegate a) a x (held.latestValue a) =
      ∑ b ∈ d.followers x, (held.latestValue b).val +
        share (d'.currentDelegate a) a x (held'.latestValue a) := by
  have hsame : (d'.followers x).erase a = (d.followers x).erase a := by
    ext b
    rw [Finset.mem_erase, Finset.mem_erase, mem_followers, mem_followers]
    refine and_congr_right fun hb => ?_
    rw [hd b hb]
  have hsum : ∑ b ∈ (d'.followers x).erase a, (held'.latestValue b).val =
      ∑ b ∈ (d.followers x).erase a, (held.latestValue b).val := by
    rw [hsame]
    refine Finset.sum_congr rfl fun b hb => ?_
    rw [hh b (Finset.ne_of_mem_erase hb)]
  rw [sum_followers d' held' a, sum_followers d held a, hsum]
  omega

/-- A follower holds no more than its delegate has. -/
theorem le_sum_followers (held : Ledger) (h : a ∈ d.followers x) :
    (held.latestValue a).val ≤ ∑ b ∈ d.followers x, (held.latestValue b).val := by
  rw [sum_followers d held a, share, if_pos (mem_followers.1 h)]
  omega

/-! ### What a change does to the power -/

/-- The power of the account itself is never touched, whoever its delegate was. -/
theorem latestValue_movedPower (hne : source ≠ target) (d : Directory) (balance : Amount)
    (now : Timestamp) (x : Account) :
    (d.movedPower delegator source target balance now).latestValue x =
      if delegator = x then d.power.latestValue x
      else if target = x then (d.power.latestValue x).saturatingAdd balance
      else if source = x then (d.power.latestValue x).saturatingSub balance
      else d.power.latestValue x := by
  unfold movedPower
  by_cases hs : source = delegator <;> by_cases ht : target = delegator <;>
    simp only [hs, ht, if_true, if_false, Ledger.latestValue_put]
  · exact absurd (hs.trans ht.symm) hne
  all_goals grind

/-- A change of delegate takes the share from the old delegate and gives it to the new one. -/
theorem Movable.power_exact (h : d.Movable delegator target balance now) (x : Account) :
    ((d.redelegated delegator target balance now).power.latestValue x).val +
        share (d.currentDelegate delegator) delegator x balance =
      (d.power.latestValue x).val + share target delegator x balance := by
  have hne := h.changes
  have hpower : (d.redelegated delegator target balance now).power =
      d.movedPower delegator (d.currentDelegate delegator) target balance now := rfl
  rw [hpower, latestValue_movedPower hne]
  by_cases hx : delegator = x
  · subst hx
    rw [if_pos rfl, share_self, share_self]
  by_cases ht : target = x
  · subst ht
    rw [if_neg hx, if_pos rfl, share_delegate hx, share_of_ne hne,
      Quantity.saturatingAdd_val_of_lt (h.credit (Ne.symm hx)), Nat.add_zero]
  by_cases hs : d.currentDelegate delegator = x
  · have hle := h.debit fun e => hx (e.symm.trans hs)
    rw [hs] at hle
    rw [if_neg hx, if_neg ht, if_pos hs, hs, share_delegate hx, share_of_ne ht,
      Quantity.saturatingSub_val, Nat.sub_add_cancel hle, Nat.add_zero]
  · rw [if_neg hx, if_neg ht, if_neg hs, share_of_ne hs, share_of_ne ht]

/-- A change of balance replaces the share in the power of the delegate. -/
theorem Carries.power_exact (h : d.Carries delegator old new now d') (x : Account) :
    (d'.power.latestValue x).val + share (d.currentDelegate delegator) delegator x old =
      (d.power.latestValue x).val + share (d.currentDelegate delegator) delegator x new := by
  cases h with
  | kept own =>
    rcases own with hown | rfl
    · by_cases hx : delegator = x
      · subst hx
        rw [share_self, share_self]
      · rw [hown, share_of_ne hx, share_of_ne hx]
    · rfl
  | carried delegating differs order exact =>
    by_cases hx : d.currentDelegate delegator = x
    · subst hx
      rw [share_delegate (Ne.symm delegating), share_delegate (Ne.symm delegating)]
      simp only [Ledger.latestValue_put_self]
      exact exact
    · rw [share_of_ne hx, share_of_ne hx]
      simp only [Ledger.latestValue_put_of_ne (Ne.symm hx)]

/-- A change of balance changes no delegate. -/
theorem Carries.currentDelegate_eq (h : d.Carries delegator old new now d') (a : Account) :
    d'.currentDelegate a = d.currentDelegate a := by
  cases h <;> rfl

/-! ### Backed power -/

/-- **The power of every delegate is what its followers hold.** -/
structure Backed (d : Directory) (held : Ledger) : Prop where
  ordered : ∀ a, (held.history a).Ordered
  known : ∀ a, d.currentDelegate a ≠ a → held.hasHistory a = true
  exact : ∀ x, (d.power.latestValue x).val = ∑ a ∈ d.followers x, (held.latestValue a).val

/-- Where nobody delegates and nobody holds anything, all power is zero. -/
theorem backed_empty : Backed {} {} where
  ordered a := by simpa [Ledger.history] using History.ordered_empty
  known a h := by simp [currentDelegate] at h
  exact x := by
    have : ({} : Directory).followers x = ∅ := by
      ext a
      rw [mem_followers]
      simp [currentDelegate]
    simp [this, Ledger.latestValue, Ledger.history, History.latest?, Quantity.zero]

namespace Backed

/-- What a follower holds can always be taken from its delegate. -/
theorem le_power (h : Backed d held) (delegating : d.currentDelegate a ≠ a) :
    (held.latestValue a).val ≤ (d.power.latestValue (d.currentDelegate a)).val := by
  rw [h.exact]
  exact le_sum_followers held (mem_followers.2 ⟨Ne.symm delegating, rfl⟩)

/-- A change of one account keeps the power backed if it replaces the share of the account. -/
theorem of_share (h : Backed d held) (hd : ∀ b ≠ a, d'.currentDelegate b = d.currentDelegate b)
    (hh : ∀ b ≠ a, held'.history b = held.history b) (ho : (held'.history a).Ordered)
    (hk : held'.hasHistory a = true)
    (he : ∀ x, (d'.power.latestValue x).val +
        share (d.currentDelegate a) a x (held.latestValue a) =
      (d.power.latestValue x).val + share (d'.currentDelegate a) a x (held'.latestValue a)) :
    Backed d' held' where
  ordered b := by
    by_cases hb : b = a
    · rw [hb]
      exact ho
    · rw [hh b hb]
      exact h.ordered b
  known b hdel := by
    by_cases hb : b = a
    · rw [hb]
      exact hk
    · rw [hd b hb] at hdel
      rw [Ledger.hasHistory, Ledger.checkpoints, hh b hb]
      exact h.known b hdel
  exact x := by
    have hl : ∀ b ≠ a, held'.latestValue b = held.latestValue b := fun b hb => by
      rw [Ledger.latestValue, hh b hb, Ledger.latestValue]
    have hsum := sum_held_add_share hd hl x
    have hx := h.exact x
    have hnew := he x
    omega

/-- A recorded balance is carried over exactly. -/
theorem put (h : Backed d held) (order : (held.history a).Accepts now)
    (carries : d.Carries a (held.latestValue a) balance now d') :
    Backed d' (held.put a balance now) := by
  refine h.of_share (fun b _ => carries.currentDelegate_eq b)
    (fun b hb => Ledger.history_put_of_ne hb held balance now) ?_
    (Ledger.hasHistory_put_self held a balance now) fun x => ?_
  · rw [Ledger.history_put_self]
    exact (h.ordered a).put order balance
  · rw [Ledger.latestValue_put_self, carries.currentDelegate_eq]
    exact carries.power_exact x

/-- The balance of a delegator is taken over exactly, and recorded if it was not yet. An account
without a recorded balance votes for itself, so it had no share anywhere. -/
theorem redelegated (h : Backed d held) (order : (held.history a).Accepts now)
    (movable : d.Movable a target balance now)
    (recorded : held.hasHistory a = true → balance = held.latestValue a) :
    Backed (d.redelegated a target balance now)
      (if held.hasHistory a then held else held.put a balance now) := by
  have hd : ∀ b ≠ a,
      (d.redelegated a target balance now).currentDelegate b = d.currentDelegate b :=
    fun b hb => currentDelegate_redelegated_of_ne hb d target balance now
  have hpower := movable.power_exact
  cases hk : held.hasHistory a with
  | true =>
    refine h.of_share hd (fun b _ => rfl) (h.ordered a) hk fun x => ?_
    rw [if_pos rfl, currentDelegate_redelegated_self, ← recorded hk]
    exact hpower x
  | false =>
    have hown : d.currentDelegate a = a := by
      by_contra hne
      rw [h.known a hne] at hk
      cases hk
    refine h.of_share hd (fun b hb => Ledger.history_put_of_ne hb held balance now) ?_
      (Ledger.hasHistory_put_self held a balance now) fun x => ?_
    · rw [if_neg Bool.false_ne_true, Ledger.history_put_self]
      exact (h.ordered a).put order balance
    · have hx := hpower x
      rw [if_neg Bool.false_ne_true, currentDelegate_redelegated_self,
        Ledger.latestValue_put_self]
      by_cases hax : a = x
      · subst hax
        rw [share_self, share_self] at hx ⊢
        exact hx
      · rw [hown, share_of_ne hax] at hx ⊢
        exact hx

end Backed
end Directory
end TokenGovernance
