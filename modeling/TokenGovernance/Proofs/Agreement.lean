/-
# The directory agrees with itself

Who delegates to whom is kept four times over: in the record of an account, in the history of its
delegates, in the lists of delegators and, by the balance that is moved, in the power of the
delegates. `Directory.Agrees` says of the first three that they tell the same, and that what an
account held was recorded by the time it first named a delegate:

| clause | table | tells |
| --- | --- | --- |
| `recorded` | records | the last entry of the history, where there is one |
| `listed` | lists | the other accounts whose current delegate it is |
| `occupied` | lists | nothing of a delegate that nobody delegates to |
| `balanced` | held balances | a checkpoint no later than the first entry of the history |

A change of delegate writes all four (`Directory.Agrees.redelegated`). It may name the account
itself, come twice at one instant, or be the first of an account that nothing was recorded for.
-/

import TokenGovernance.Proofs.SortedMap
import TokenGovernance.Proofs.Timeline
import TokenGovernance.Proofs.Utf8

namespace TokenGovernance

/-! ### The order of accounts -/

/-- Accounts are in the order of the bytes of their names. -/
theorem Account.encode_lt {a b : Account} (h : compare a b = .lt) :
    Utf8.encode a.name < Utf8.encode b.name := by
  refine Utf8.encode_lt ?_
  have h : compareOfLessAndEq a.name b.name = .lt := h
  exact compareOfLessAndEq_eq_lt.1 h

namespace Directory

variable {d d' : Directory} {held held' : Ledger} {a b delegator source target x : Account}
  {balance old new : Amount} {now : Timestamp}

/-! ### The lists of delegators -/

/-- The accounts that are listed for a delegate. -/
def listed (d : Directory) (x : Account) : AccountSet := d.delegators[x]?.getD ∅

/-- **The delegators of an account are given in the order of their names**, each once. -/
theorem delegatorsOf_spec (d : Directory) (x : Account) :
    (∀ a, a ∈ d.delegatorsOf x ↔ a ∈ d.listed x) ∧ (d.delegatorsOf x).Nodup ∧
      (d.delegatorsOf x).Pairwise fun a b => Utf8.encode a.name < Utf8.encode b.name := by
  have hsorted : (d.delegatorsOf x).Pairwise fun a b => compare a b = .lt :=
    Std.ExtTreeSet.ordered_toList
  refine ⟨fun a => Std.ExtTreeSet.mem_toList, hsorted.imp fun {a b} h e => ?_,
    hsorted.imp Account.encode_lt⟩
  have hself : compare b b = .eq := Std.ReflCmp.compare_self
  rw [e, hself] at h
  cases h

/-- Taking an account off a list leaves the rest of it and the other lists. -/
theorem mem_listed_unlink (d : Directory) (delegator source : Account) :
    a ∈ (d.unlink delegator source).listed x ↔
      a ∈ d.listed x ∧ ¬(x = source ∧ a = delegator) := by
  unfold unlink listed
  rcases hs : d.delegators[source]? with _ | accounts
  · simp only [iff_self_and]
    rintro hmem ⟨rfl, -⟩
    rw [hs] at hmem
    exact Std.ExtTreeSet.not_mem_empty hmem
  · by_cases hx : source = x
    · subst hx
      have hrest : a ∈ accounts.erase delegator ↔ a ∈ accounts ∧ a ≠ delegator :=
        SortedSet.mem_erase.trans and_comm
      simp only [hs, Option.getD_some, true_and]
      rw [← Ne, ← hrest]
      split
      · rename_i hempty
        rw [SortedMap.getElem?_erase, if_pos rfl, Std.ExtTreeSet.isEmpty_iff.1 hempty,
          Option.getD_none]
      · rw [SortedMap.getElem?_insert, if_pos rfl, Option.getD_some]
    · have hx' : ¬(x = source ∧ a = delegator) := fun h => hx h.1.symm
      simp only [hx', not_false_eq_true, and_true]
      split
      · rw [SortedMap.getElem?_erase, if_neg hx]
      · rw [SortedMap.getElem?_insert, if_neg hx]

/-- Putting an account on a list adds it to that list. -/
theorem mem_listed_link (d : Directory) (delegator target : Account) :
    a ∈ (d.link delegator target).listed x ↔
      x = target ∧ a = delegator ∨ a ∈ d.listed x := by
  unfold link listed
  simp only [SortedMap.getElem?_insert]
  by_cases hx : target = x
  · subst hx
    rw [if_pos rfl, Option.getD_some, SortedSet.mem_insert]
    simp only [true_and]
  · rw [if_neg hx]
    simp only [Ne.symm hx, false_and, false_or]

/-- A change of delegate takes the account off the old list and puts it on the new one, if that is
not its own. -/
theorem mem_listed_redelegated (d : Directory) (delegator target : Account) (balance : Amount)
    (now : Timestamp) :
    a ∈ (d.redelegated delegator target balance now).listed x ↔
      (x = target ∧ a = delegator ∧ target ≠ delegator) ∨
        a ∈ d.listed x ∧ ¬(x = d.currentDelegate delegator ∧ a = delegator) := by
  have hlists : (d.redelegated delegator target balance now).listed x =
      if target = delegator then (d.unlink delegator (d.currentDelegate delegator)).listed x
      else ((d.unlink delegator (d.currentDelegate delegator)).link delegator target).listed x := by
    show (d.relinked delegator (d.currentDelegate delegator) target)[x]?.getD ∅ = _
    unfold relinked
    split <;> rfl
  rw [hlists]
  by_cases ht : target = delegator
  · rw [if_pos ht, mem_listed_unlink]
    simp only [ht, ne_eq, not_true_eq_false, and_false, false_or]
  · rw [if_neg ht, mem_listed_link, mem_listed_unlink]
    simp only [ne_eq, ht, not_false_eq_true, and_true]

/-- No list that is kept is empty. -/
def Occupied (lists : AccountMap AccountSet) : Prop := ∀ x : Account, lists[x]? ≠ some ∅

/-- The one list that loses an account is dropped if it becomes empty. -/
theorem occupied_unlink (h : Occupied d.delegators) (delegator source : Account) :
    Occupied (d.unlink delegator source).delegators := by
  intro x hx
  unfold unlink at hx
  split at hx
  · exact h x hx
  · simp only at hx
    split at hx
    · rw [SortedMap.getElem?_erase] at hx
      split at hx
      · cases hx
      · exact h x hx
    · rename_i hne
      rw [SortedMap.getElem?_insert] at hx
      split at hx
      · rw [Option.some.inj hx] at hne
        exact hne Std.ExtTreeSet.isEmpty_empty
      · exact h x hx

/-- The one list that gains an account is not empty. -/
theorem occupied_link (h : Occupied d.delegators) (delegator target : Account) :
    Occupied (d.link delegator target).delegators := by
  intro x hx
  unfold link at hx
  rw [SortedMap.getElem?_insert] at hx
  split at hx
  · have hmem : delegator ∈ (d.delegators[target]?.getD ∅).insert delegator :=
      SortedSet.mem_insert.2 (.inl rfl)
    rw [Option.some.inj hx] at hmem
    exact Std.ExtTreeSet.not_mem_empty hmem
  · exact h x hx

/-- So a change of delegate leaves no list empty. -/
theorem occupied_redelegated (h : Occupied d.delegators) (delegator target : Account)
    (balance : Amount) (now : Timestamp) :
    Occupied (d.redelegated delegator target balance now).delegators := by
  have hunlinked := occupied_unlink h delegator (d.currentDelegate delegator)
  show Occupied (d.relinked delegator (d.currentDelegate delegator) target)
  unfold relinked
  split
  · exact hunlinked
  · exact occupied_link hunlinked delegator target

/-! ### Agreement -/

/-- **The tables of the directory tell the same**, and go with the balances. -/
structure Agrees (d : Directory) (held : Ledger) : Prop where
  recorded : ∀ a, d.records[a]? = (d.history a).latest?.map fun last => ⟨last.value, last.time⟩
  listed : ∀ a x, a ∈ d.listed x ↔ a ≠ x ∧ d.currentDelegate a = x
  occupied : Occupied d.delegators
  balanced : ∀ a first, (d.history a).times.head? = some first →
    ∃ u ∈ (held.history a).times, u ≤ first

/-- A directory without records agrees with a ledger without histories. -/
theorem agrees_empty : Agrees {} {} where
  recorded a := by simp [history, History.latest?]
  listed a x := by
    simp only [Directory.listed, currentDelegate, Std.ExtTreeMap.getElem?_empty, Option.getD_none,
      Std.ExtTreeSet.not_mem_empty, false_iff]
    exact fun h => h.1 h.2
  occupied x := by simp
  balanced a first h := by simp [history, History.times] at h

namespace Agrees

/-- Later balances leave the times of the earlier ones. -/
theorem mono (h : d.Agrees held)
    (hh : ∀ a, ∀ u ∈ (held.history a).times, u ∈ (held'.history a).times) : d.Agrees held' where
  recorded := h.recorded
  listed := h.listed
  occupied := h.occupied
  balanced a first hfirst := by
    obtain ⟨u, hu, hle⟩ := h.balanced a first hfirst
    exact ⟨u, hh a u hu, hle⟩

/-- A change of a balance changes the power alone. -/
theorem carries (h : d.Agrees held) (carries : d.Carries delegator old new now d') :
    d'.Agrees held := by
  cases carries with
  | kept => exact h
  | carried => exact ⟨h.recorded, h.listed, h.occupied, h.balanced⟩

/-- A balance that is recorded later leaves the first time of its history, which is all that is
asked of the ledger. -/
theorem put (h : d.Agrees held) (a : Account) (balance : Amount) (now : Timestamp) :
    d.Agrees (held.put a balance now) := by
  refine h.mono fun b u hu => ?_
  by_cases hb : b = a
  · subst hb
    rw [Ledger.history_put_self]
    exact History.mem_times_put hu now balance
  · rwa [Ledger.history_put_of_ne hb]

/-- **A change of delegate is told alike by all tables**, once the account has a balance. -/
theorem redelegated (h : d.Agrees held) (delegator target : Account) (balance : Amount)
    (now : Timestamp) (known : ∃ u ∈ (held.history delegator).times, u ≤ now) :
    (d.redelegated delegator target balance now).Agrees held where
  recorded a := by
    show (d.records.insert delegator ⟨target, now⟩)[a]? = _
    rw [SortedMap.getElem?_insert]
    split
    · rename_i ha
      subst ha
      rw [history_redelegated_self, History.latest?_put, Option.map_some]
    · rename_i ha
      rw [history_redelegated_of_ne (Ne.symm ha), h.recorded]
  listed a x := by
    rw [mem_listed_redelegated, h.listed]
    by_cases ha : a = delegator
    · subst ha
      rw [currentDelegate_redelegated_self]
      grind
    · rw [currentDelegate_redelegated_of_ne ha]
      simp only [ha, false_and, and_false, not_false_eq_true, and_true, false_or]
  occupied := occupied_redelegated h.occupied delegator target balance now
  balanced a first hfirst := by
    by_cases ha : a = delegator
    · subst ha
      rw [history_redelegated_self] at hfirst
      rcases History.head?_times_put hfirst with hfirst | ⟨-, rfl⟩
      · exact h.balanced a first hfirst
      · exact known
    · rw [history_redelegated_of_ne ha] at hfirst
      exact h.balanced a first hfirst

end Agrees
end Directory
end TokenGovernance
