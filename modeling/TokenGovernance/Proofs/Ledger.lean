/-
# Writing to histories and ledgers

A write to a history is taken or refused by its time alone (`History.Accepts`), and what a taken
write leaves is a total function (`History.put`), so that a refused write and an accepted one are
told apart once, here (`History.push_eq_ok_iff`, `Ledger.record_eq_ok_iff`).

A history that was only written to has increasing times (`History.Ordered`), and then a query at
or after its last time reads its last value (`History.Ordered.lookup_latest`), since all of its
checkpoints are at or before that instant.
-/

import TokenGovernance.Ledger
import TokenGovernance.Proofs.Quantity
import TokenGovernance.Proofs.Search
import TokenGovernance.Proofs.SortedMap

namespace TokenGovernance
namespace History

variable {α : Type} {h h' : History α} {time now t : Timestamp} {value : α}

/-- Whether a write at `time` is taken: the last checkpoint is not later. -/
def Accepts (h : History α) (time : Timestamp) : Prop :=
  ∀ last, h.latest? = some last → last.time ≤ time

/-- The history after a write that is taken: a checkpoint at the same instant is replaced. -/
def put (h : History α) (time : Timestamp) (value : α) : History α :=
  if h.latest?.map (·.time) = some time then ⟨h.checkpoints.dropLast ++ [⟨time, value⟩]⟩
  else ⟨h.checkpoints ++ [⟨time, value⟩]⟩

/-- The times of the checkpoints increase. -/
def Ordered (h : History α) : Prop := h.checkpoints.Pairwise (·.time < ·.time)

/-- **A write is taken exactly when the last checkpoint is not later.** -/
theorem push_eq_ok_iff : h.push time value = .ok h' ↔ h.Accepts time ∧ h' = h.put time value := by
  unfold push put Accepts
  rcases hl : h.latest? with _ | last
  · have hnil : h.checkpoints = [] := List.getLast?_eq_none_iff.1 hl
    simp [hnil, eq_comm]
  · simp only [Option.some.injEq, forall_eq', Option.map_some, Timestamp.lt_def, Timestamp.le_def]
    by_cases hlt : time.val < last.time.val
    · rw [if_pos hlt]
      constructor
      · intro e
        cases e
      · rintro ⟨hle, -⟩
        omega
    · rw [if_neg hlt]
      have hle : last.time.val ≤ time.val := by omega
      split <;> simp [hle, eq_comm]

/-- A refusal names the time of the last checkpoint, which is later. -/
theorem push_eq_error_iff {latest : Timestamp} :
    h.push time value = .error latest ↔
      ∃ last, h.latest? = some last ∧ time < last.time ∧ latest = last.time := by
  unfold push
  rcases hl : h.latest? with _ | last
  · simp
  · simp only [Option.some.injEq, exists_eq_left']
    split
    · rename_i hlt
      simp [hlt, eq_comm]
    · rename_i hlt
      split <;> simp [hlt]

/-- **What is written last is the last checkpoint**, whether it was added or put in place of one. -/
@[simp] theorem latest?_put (h : History α) (time : Timestamp) (value : α) :
    (h.put time value).latest? = some ⟨time, value⟩ := by
  unfold put
  split <;> simp [latest?]

/-- In an ordered history everything before the last checkpoint is earlier. -/
theorem mem_dropLast_time_lt (ho : h.Ordered) {last c : Checkpoint α} (hl : h.latest? = some last)
    (hc : c ∈ h.checkpoints.dropLast) : c.time < last.time := by
  obtain ⟨front, e⟩ := List.getLast?_eq_some_iff.1 hl
  rw [Ordered, e, List.pairwise_append] at ho
  rw [e, List.dropLast_concat] at hc
  exact ho.2.2 c hc last (List.mem_singleton_self last)

/-- In an ordered history no checkpoint is later than the last one. -/
theorem Ordered.time_le (ho : h.Ordered) {last c : Checkpoint α} (hl : h.latest? = some last)
    (hc : c ∈ h.checkpoints) : c.time ≤ last.time := by
  obtain ⟨front, e⟩ := List.getLast?_eq_some_iff.1 hl
  rw [e, List.mem_append, List.mem_singleton] at hc
  rcases hc with hc | rfl
  · exact Nat.le_of_lt (mem_dropLast_time_lt ho hl (by rwa [e, List.dropLast_concat]))
  · exact Nat.le_refl _

/-- A history that was never written to is in order. -/
theorem ordered_empty : ({} : History α).Ordered := List.Pairwise.nil

/-- A write that is taken keeps a history in order. -/
theorem Ordered.put (ho : h.Ordered) (ha : h.Accepts time) (value : α) :
    (h.put time value).Ordered := by
  unfold History.put
  split
  · rename_i e
    obtain ⟨last, hl, rfl⟩ := Option.map_eq_some_iff.1 e
    refine List.pairwise_append.2
      ⟨ho.sublist (List.dropLast_sublist _), List.pairwise_singleton .., ?_⟩
    intro c hc d hd
    rw [List.mem_singleton.1 hd]
    show c.time < last.time
    exact mem_dropLast_time_lt ho hl hc
  · rename_i hne
    refine List.pairwise_append.2 ⟨ho, List.pairwise_singleton .., ?_⟩
    intro c hc d hd
    rw [List.mem_singleton.1 hd]
    obtain ⟨last, hl⟩ : ∃ last, h.latest? = some last := by
      rcases hl : h.latest? with _ | last
      · rw [List.getLast?_eq_none_iff.1 hl] at hc
        cases hc
      · exact ⟨last, rfl⟩
    have hlast : last.time.val ≤ time.val := ha last hl
    have hle : c.time.val ≤ last.time.val := ho.time_le hl hc
    have hne' : last.time.val ≠ time.val := fun e =>
      hne (by rw [hl, Option.map_some, Timestamp.ext e])
    show c.time.val < time.val
    omega

/-! ### The times of a history -/

/-- The times of the checkpoints, the earliest first. -/
def times (h : History α) : List Timestamp := h.checkpoints.map (·.time)

/-- **A write adds its time, unless it is there already.** -/
theorem times_put (h : History α) (time : Timestamp) (value : α) :
    (h.put time value).times =
      if h.latest?.map (·.time) = some time then h.times else h.times ++ [time] := by
  unfold put times
  split
  · rename_i e
    obtain ⟨last, hl, rfl⟩ := Option.map_eq_some_iff.1 e
    obtain ⟨front, hfront⟩ := List.getLast?_eq_some_iff.1 hl
    simp [hfront]
  · simp

/-- No time is lost by a write. -/
theorem mem_times_put (ht : t ∈ h.times) (time : Timestamp) (value : α) :
    t ∈ (h.put time value).times := by
  rw [times_put]
  split
  · exact ht
  · exact List.mem_append_left _ ht

/-- The instant of a write is among the times afterwards. -/
theorem mem_times_put_self (h : History α) (time : Timestamp) (value : α) :
    time ∈ (h.put time value).times :=
  List.mem_map.2 ⟨_, List.mem_of_getLast? (latest?_put h time value), rfl⟩

/-- **A write adds its instant to the times and loses none.** -/
theorem mem_times_put_iff :
    t ∈ (h.put time value).times ↔ t ∈ h.times ∨ t = time := by
  constructor
  · intro ht
    rw [times_put] at ht
    split at ht
    · exact .inl ht
    · simpa using ht
  · rintro (ht | rfl)
    · exact mem_times_put ht time value
    · exact mem_times_put_self h t value

/-- The first time stays, and is that of the write where there was none. -/
theorem head?_times_put (ht : (h.put time value).times.head? = some t) :
    h.times.head? = some t ∨ h.times = [] ∧ t = time := by
  rw [times_put] at ht
  split at ht
  · exact .inl ht
  · rcases hcs : h.times with _ | ⟨u, us⟩
    · rw [hcs] at ht
      exact .inr ⟨rfl, (Option.some.inj ht).symm⟩
    · rw [hcs] at ht
      exact .inl ht

/-- A query at or after the last time of an ordered history reads its last value. -/
theorem Ordered.lookup_latest (ho : h.Ordered) {last : Checkpoint α} (hl : h.latest? = some last)
    (ht : last.time ≤ now) : h.lookup now = .found last.value := by
  have hall : h.checkpoints.filter (·.time ≤ now) = h.checkpoints :=
    List.filter_eq_self.2 fun c hc => decide_eq_true (Nat.le_trans (ho.time_le hl hc) ht)
  have hfound := getLast?_filter_time (ho.imp Nat.le_of_lt) now
  rw [hall] at hfound
  obtain ⟨i, hi, hlast⟩ := Option.map_eq_some_iff.1 (hfound.symm.trans hl)
  have hne : h.checkpoints.isEmpty = false :=
    List.isEmpty_eq_false_iff.2 (List.ne_nil_of_mem (List.mem_of_getLast? hl))
  unfold lookup
  rw [hne, hi, ← hlast]
  rfl

end History

namespace Ledger

variable {l l' : Ledger} {a b : Account} {value delta : Amount} {time now : Timestamp} {f : Fault}

/-- The ledger after a write that is taken. -/
def put (l : Ledger) (a : Account) (value : Amount) (time : Timestamp) : Ledger :=
  ⟨l.series.insert a ((l.history a).put time value)⟩

/-- The account that is written for has its history written to. -/
@[simp] theorem history_put_self (l : Ledger) (a : Account) (value : Amount) (time : Timestamp) :
    (l.put a value time).history a = (l.history a).put time value := by
  simp [put, history]

/-- The history of any other account stays as it was. -/
theorem history_put_of_ne (h : b ≠ a) (l : Ledger) (value : Amount) (time : Timestamp) :
    (l.put a value time).history b = l.history b := by
  simp [put, history, SortedMap.getElem?_insert, Ne.symm h]

/-- The account that is written for has what was written. -/
@[simp] theorem latestValue_put_self (l : Ledger) (a : Account) (value : Amount)
    (time : Timestamp) : (l.put a value time).latestValue a = value := by
  simp [latestValue]

/-- Any other account keeps its last amount. -/
theorem latestValue_put_of_ne (h : b ≠ a) (l : Ledger) (value : Amount) (time : Timestamp) :
    (l.put a value time).latestValue b = l.latestValue b := by
  rw [latestValue, history_put_of_ne h, latestValue]

/-- The last amounts after a write, own account and others in one equation. -/
theorem latestValue_put (l : Ledger) (a : Account) (value : Amount) (time : Timestamp)
    (b : Account) :
    (l.put a value time).latestValue b = if a = b then value else l.latestValue b := by
  by_cases h : a = b
  · rw [if_pos h, h, latestValue_put_self]
  · rw [if_neg h, latestValue_put_of_ne (Ne.symm h)]

/-- An account has a history exactly when it has a last checkpoint. -/
theorem hasHistory_iff : l.hasHistory a = true ↔ ∃ last, (l.history a).latest? = some last := by
  rw [hasHistory, checkpoints, Bool.not_eq_true', List.isEmpty_eq_false_iff]
  constructor
  · intro h
    exact ⟨_, List.getLast?_eq_some_getLast h⟩
  · rintro ⟨last, hl⟩ h
    rw [History.latest?, h] at hl
    cases hl

/-- An account that was written for has a history. -/
theorem hasHistory_put_self (l : Ledger) (a : Account) (value : Amount) (time : Timestamp) :
    (l.put a value time).hasHistory a = true :=
  hasHistory_iff.2 ⟨_, by rw [history_put_self, History.latest?_put]⟩

/-- At an instant that a write would be taken at, an account with a history has a checkpoint. -/
theorem exists_time_of_accepts (order : (l.history a).Accepts now)
    (recorded : l.hasHistory a = true) : ∃ u ∈ (l.history a).times, u ≤ now := by
  obtain ⟨last, hl⟩ := hasHistory_iff.1 recorded
  exact ⟨last.time, List.mem_map.2 ⟨last, List.mem_of_getLast? hl, rfl⟩, order last hl⟩

/-- A write in order passes the check. -/
theorem checkOrder_eq_ok_iff : l.checkOrder a time = .ok () ↔ (l.history a).Accepts time := by
  unfold checkOrder History.Accepts
  rcases (l.history a).latest? with _ | last
  · simp
  · simp only [Option.some.injEq, forall_eq', Timestamp.lt_def, Timestamp.le_def]
    split
    · simp only [reduceCtorEq, false_iff]
      omega
    · simp only [true_iff]
      omega

/-- A write that would go back in time is refused with the last time of the account. -/
theorem checkOrder_eq_error_iff : l.checkOrder a time = .error f ↔
    ∃ last, (l.history a).latest? = some last ∧ time < last.time ∧
      f = .checkpointOutOfOrder a time last.time := by
  unfold checkOrder
  rcases (l.history a).latest? with _ | last
  · simp
  · simp only [Option.some.injEq, exists_eq_left']
    split <;> simp_all [eq_comm]

/-- **A ledger takes a write exactly when it is in order.** -/
theorem record_eq_ok_iff :
    l.record a value time = .ok l' ↔ (l.history a).Accepts time ∧ l' = l.put a value time := by
  unfold record put
  rcases hp : (l.history a).push time value with latest | h'
  · have : ¬(l.history a).Accepts time := fun ha => by
      rw [History.push_eq_ok_iff.2 ⟨ha, rfl⟩] at hp
      cases hp
    simp [this]
  · obtain ⟨ha, rfl⟩ := History.push_eq_ok_iff.1 hp
    simp [ha, eq_comm]

/-- A write that comes in order is recorded. -/
theorem record_of_accepts (h : (l.history a).Accepts time) (value : Amount) :
    l.record a value time = .ok (l.put a value time) :=
  record_eq_ok_iff.2 ⟨h, rfl⟩

/-- A write is refused for its order alone. -/
theorem record_eq_error_iff :
    l.record a value time = .error f ↔ l.checkOrder a time = .error f := by
  rw [checkOrder_eq_error_iff]
  unfold record
  rcases hp : (l.history a).push time value with latest | h'
  · obtain ⟨last, hl, ht, rfl⟩ := History.push_eq_error_iff.1 hp
    simp [hl, ht, eq_comm]
  · obtain ⟨ha, rfl⟩ := History.push_eq_ok_iff.1 hp
    simp only [reduceCtorEq, false_iff, not_exists, not_and]
    intro last hl hlt
    have := ha last hl
    rw [Timestamp.le_def] at this
    rw [Timestamp.lt_def] at hlt
    omega

/-- An addition is taken when the sum is in range and the write in order. -/
theorem increase_eq_ok_iff : l.increase a delta time = .ok l' ↔
    (l.latestValue a).val + delta.val < 1 <<< 128 ∧ (l.history a).Accepts time ∧
      l' = l.put a ((l.latestValue a).saturatingAdd delta) time := by
  simp only [increase, Fault.bind_eq_ok_iff, Quantity.checkedAdd_eq_ok_iff, record_eq_ok_iff]
  constructor
  · rintro ⟨_, ⟨hlt, rfl⟩, h⟩
    exact ⟨hlt, h⟩
  · rintro ⟨hlt, h⟩
    exact ⟨_, ⟨hlt, rfl⟩, h⟩

/-- An increase is refused because the sum leaves the range, or else for its order: the sum comes
first. -/
theorem increase_eq_error_iff : l.increase a delta time = .error f ↔
    1 <<< 128 ≤ (l.latestValue a).val + delta.val ∧ f = .overflow ∨
      (l.latestValue a).val + delta.val < 1 <<< 128 ∧ l.checkOrder a time = .error f := by
  simp only [increase, Fault.bind_eq_error_iff, Quantity.checkedAdd_eq_error_iff,
    Quantity.checkedAdd_eq_ok_iff, record_eq_error_iff, and_assoc, exists_and_left, exists_eq_left]

/-- A subtraction is taken when the amount suffices and the write is in order. -/
theorem decrease_eq_ok_iff : l.decrease a delta time = .ok l' ↔
    delta.val ≤ (l.latestValue a).val ∧ (l.history a).Accepts time ∧
      l' = l.put a ((l.latestValue a).saturatingSub delta) time := by
  simp only [decrease, Fault.bind_eq_ok_iff, Quantity.checkedSub_eq_ok_iff, record_eq_ok_iff]
  constructor
  · rintro ⟨_, ⟨hle, rfl⟩, h⟩
    exact ⟨hle, h⟩
  · rintro ⟨hle, h⟩
    exact ⟨_, ⟨hle, rfl⟩, h⟩

/-- A decrease is refused because there is less than is taken, or else for its order. -/
theorem decrease_eq_error_iff : l.decrease a delta time = .error f ↔
    (l.latestValue a).val < delta.val ∧ f = .overflow ∨
      delta.val ≤ (l.latestValue a).val ∧ l.checkOrder a time = .error f := by
  simp only [decrease, Fault.bind_eq_error_iff, Quantity.checkedSub_eq_error_iff,
    Quantity.checkedSub_eq_ok_iff, record_eq_error_iff, and_assoc, exists_and_left, exists_eq_left]

end Ledger
end TokenGovernance
