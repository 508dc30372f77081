/-
# Changing a delegate

A change of delegate has three checks on amounts and times and six writes. `Directory.Movable`
collects what the checks ask for, `Directory.MoveRefused` what they refuse, and
`Directory.redelegated` what the writes leave. Each part has its lemma, and
`Directory.delegate_settled` puts them together:

| part | lemma |
| --- | --- |
| debit of the old delegate | `Directory.settled_debit` |
| credit of the new one | `Directory.settled_credit` |
| order of the three histories | `Directory.checkOrder_eq_ok_iff` |
| writes to the power | `Directory.perform_movedPower` |
| writes to lists and delegates | `Directory.perform_redelegated` |

A change of balance is carried over to the power of the delegate in the same way
(`Directory.balanceChanged_settled`).
-/

import TokenGovernance.Delegation
import TokenGovernance.Proofs.Ledger
import TokenGovernance.Proofs.Procedure
import TokenGovernance.Proofs.Quantity

namespace TokenGovernance
namespace Directory

variable {α : Type} {d : Directory} {delegator source target a : Account}
  {balance old new value : Amount} {now : Timestamp} {f : Fault} {Done : α → Directory → Prop}
  {Refused : Fault → Prop}

/-! ### What a change of delegate leaves -/

/-- The power of the delegates after `balance` went from `source` to `target`. An account that
votes for itself neither gives nor takes. -/
def movedPower (d : Directory) (delegator source target : Account) (balance : Amount)
    (now : Timestamp) : Ledger :=
  let debited :=
    if source = delegator then d.power
    else d.power.put source ((d.power.latestValue source).saturatingSub balance) now
  if target = delegator then debited
  else debited.put target ((d.power.latestValue target).saturatingAdd balance) now

/-- The lists of delegators after `delegator` went from `source` to `target`. -/
def relinked (d : Directory) (delegator source target : Account) : AccountMap AccountSet :=
  if target = delegator then (d.unlink delegator source).delegators
  else ((d.unlink delegator source).link delegator target).delegators

/-- The directory after `target` became the delegate of `delegator`, who holds `balance`. -/
def redelegated (d : Directory) (delegator target : Account) (balance : Amount)
    (now : Timestamp) : Directory where
  records := d.records.insert delegator ⟨target, now⟩
  histories := d.histories.insert delegator ((d.history delegator).put now target)
  delegators := d.relinked delegator (d.currentDelegate delegator) target
  power := d.movedPower delegator (d.currentDelegate delegator) target balance now

/-- What a change of delegate asks for. -/
structure Movable (d : Directory) (delegator target : Account) (balance : Amount)
    (now : Timestamp) : Prop where
  /-- It is a change. -/
  changes : d.currentDelegate delegator ≠ target
  /-- The old delegate has what is taken. -/
  debit : d.currentDelegate delegator ≠ delegator →
    balance.val ≤ (d.power.latestValue (d.currentDelegate delegator)).val
  /-- The new delegate can hold what is given. -/
  credit : target ≠ delegator → (d.power.latestValue target).val + balance.val < 1 <<< 128
  source_order : (d.power.history (d.currentDelegate delegator)).Accepts now
  target_order : (d.power.history target).Accepts now
  own_order : (d.history delegator).Accepts now

/-- Why a change of delegate is refused. -/
inductive MoveRefused (d : Directory) (delegator target : Account) (balance : Amount)
    (now : Timestamp) : Fault → Prop where
  /-- The old delegate has less than what is taken. -/
  | debit (delegating : d.currentDelegate delegator ≠ delegator)
      (short : (d.power.latestValue (d.currentDelegate delegator)).val < balance.val) :
      MoveRefused d delegator target balance now .overflow
  /-- The new delegate cannot hold what is given. -/
  | credit (other : target ≠ delegator)
      (full : 1 <<< 128 ≤ (d.power.latestValue target).val + balance.val) :
      MoveRefused d delegator target balance now .overflow
  /-- One of the three histories would go back in time. -/
  | order {f : Fault}
      (late : d.checkOrder delegator (d.currentDelegate delegator) target now = .error f) :
      MoveRefused d delegator target balance now f

/-- The account that moved has the new delegate. -/
@[simp] theorem currentDelegate_redelegated_self (d : Directory) (delegator target : Account)
    (balance : Amount) (now : Timestamp) :
    (d.redelegated delegator target balance now).currentDelegate delegator = target := by
  simp [redelegated, currentDelegate]

/-- Every other account keeps its delegate. -/
theorem currentDelegate_redelegated_of_ne (h : a ≠ delegator) (d : Directory) (target : Account)
    (balance : Amount) (now : Timestamp) :
    (d.redelegated delegator target balance now).currentDelegate a = d.currentDelegate a := by
  simp [redelegated, currentDelegate, SortedMap.getElem?_insert, Ne.symm h]

/-- The order check asks the three histories. -/
theorem checkOrder_eq_ok_iff : d.checkOrder delegator source target now = .ok () ↔
    (d.power.history source).Accepts now ∧ (d.power.history target).Accepts now ∧
      (d.history delegator).Accepts now := by
  simp only [← Ledger.checkOrder_eq_ok_iff]
  unfold checkOrder History.Accepts
  rcases d.power.checkOrder source now with f | _
  · simp [bind, Except.bind]
  rcases d.power.checkOrder target now with f | _
  · simp [bind, Except.bind]
  rcases (d.history delegator).latest? with _ | last
  · simp [bind, Except.bind, pure, Except.pure]
  · by_cases h : now < last.time
    · have : ¬last.time ≤ now := Nat.not_le.2 h
      simp [bind, Except.bind, h, this, throw, throwThe, MonadExceptOf.throw]
    · have : last.time ≤ now := Nat.not_lt.1 h
      simp [bind, Except.bind, h, this, pure, Except.pure]

/-- The order check refuses nothing but a write that would go back in time. -/
theorem checkOrder_eq_error (h : d.checkOrder delegator source target now = .error f) :
    ∃ a latest, f = .checkpointOutOfOrder a now latest := by
  unfold checkOrder at h
  rcases Fault.bind_eq_error_iff.1 h with h | ⟨-, -, h⟩
  · obtain ⟨last, -, -, rfl⟩ := Ledger.checkOrder_eq_error_iff.1 h
    exact ⟨_, _, rfl⟩
  rcases Fault.bind_eq_error_iff.1 h with h | ⟨-, -, h⟩
  · obtain ⟨last, -, -, rfl⟩ := Ledger.checkOrder_eq_error_iff.1 h
    exact ⟨_, _, rfl⟩
  split at h
  · split at h
    · cases h
      exact ⟨_, _, rfl⟩
    · cases h
  · cases h

/-! ### The checks on amounts -/

/-- What is left to the old delegate, unless that is the account itself. -/
def debited? (d : Directory) (delegator source : Account) (balance : Amount) : Option Amount :=
  if source = delegator then none else some ((d.power.latestValue source).saturatingSub balance)

/-- What the new delegate comes to, unless that is the account itself. -/
def credited? (d : Directory) (delegator target : Account) (balance : Amount) : Option Amount :=
  if target = delegator then none else some ((d.power.latestValue target).saturatingAdd balance)

/-- **The debit.** It is refused only where the old delegate is another account, which has less than
is taken. -/
theorem settled_debit {k : Option Amount → Procedure Directory α}
    (short : source ≠ delegator → (d.power.latestValue source).val < balance.val →
      Refused .overflow)
    (enough : (source ≠ delegator → balance.val ≤ (d.power.latestValue source).val) →
      (k (d.debited? delegator source balance)).Settled d Done Refused) :
    (do
      let debit? ←
        if source = delegator then pure none
        else some <$> Fault.orOverflow ((d.power.latestValue source).sub? balance)
      k debit? : Procedure Directory α).Settled d Done Refused := by
  refine .ite (fun hown => ?_) fun hother => ?_
  · rw [debited?, if_pos hown] at enough
    exact enough fun h => absurd hown h
  · rw [debited?, if_neg hother] at enough
    rw [bind_map_left]
    refine .check (fun f hf => ?_) fun left hleft => ?_
    · obtain ⟨hshort, rfl⟩ := Quantity.checkedSub_eq_error_iff.1 hf
      exact short hother hshort
    · obtain ⟨hle, rfl⟩ := Quantity.checkedSub_eq_ok_iff.1 hleft
      exact enough fun _ => hle

/-- **The credit.** It is refused only where the new delegate is another account, which cannot hold
what is given. -/
theorem settled_credit {k : Option Amount → Procedure Directory α}
    (full : target ≠ delegator → 1 <<< 128 ≤ (d.power.latestValue target).val + balance.val →
      Refused .overflow)
    (room : (target ≠ delegator → (d.power.latestValue target).val + balance.val < 1 <<< 128) →
      (k (d.credited? delegator target balance)).Settled d Done Refused) :
    (do
      let credit? ←
        if target = delegator then pure none
        else some <$> Fault.orOverflow ((d.power.latestValue target).add? balance)
      k credit? : Procedure Directory α).Settled d Done Refused := by
  refine .ite (fun hown => ?_) fun hother => ?_
  · rw [credited?, if_pos hown] at room
    exact room fun h => absurd hown h
  · rw [credited?, if_neg hother] at room
    rw [bind_map_left]
    refine .check (fun f hf => ?_) fun total htotal => ?_
    · obtain ⟨hfull, rfl⟩ := Quantity.checkedAdd_eq_error_iff.1 hf
      exact full hother hfull
    · obtain ⟨hlt, rfl⟩ := Quantity.checkedAdd_eq_ok_iff.1 htotal
      exact room fun _ => hlt

/-! ### The writes -/

/-- A write of power is certain once its order was checked. -/
theorem perform_recordPower (h : (d.power.history a).Accepts now) (value : Amount) :
    (recordPower a value now).perform d =
      (.ok (), { d with power := d.power.put a value now }) := by
  unfold recordPower
  rw [Procedure.perform_bind_ok (Procedure.perform_get d), Ledger.record_of_accepts h]
  rfl

/-- The two writes that name a delegate, one to the record and one to the history of the account,
are certain once its order was checked. -/
theorem perform_recordDelegate (h : (d.history delegator).Accepts now) (target : Account) :
    (recordDelegate delegator target now).perform d =
      (.ok (), { d with
        records := d.records.insert delegator ⟨target, now⟩
        histories := d.histories.insert delegator ((d.history delegator).put now target) }) := by
  have hp : (d.history delegator).push now target = .ok ((d.history delegator).put now target) :=
    History.push_eq_ok_iff.2 ⟨h, rfl⟩
  unfold recordDelegate
  rw [Procedure.perform_bind_ok (Procedure.perform_modify _ d),
    Procedure.perform_bind_ok (Procedure.perform_get _)]
  have hh : Directory.history { d with records := d.records.insert delegator ⟨target, now⟩ }
      delegator = d.history delegator := rfl
  rw [hh, hp]
  rfl

/-- Taking an account off a list changes the lists alone. -/
theorem unlink_with_power (d : Directory) (power : Ledger) (delegator source : Account) :
    { d with power }.unlink delegator source =
      { d with power, delegators := (d.unlink delegator source).delegators } := by
  unfold unlink
  simp only
  split <;> rfl

/-- The writes to the power of the two delegates. They differ, so the first write leaves the order
of the second as it was. -/
theorem perform_movedPower (hsource : (d.power.history source).Accepts now)
    (htarget : (d.power.history target).Accepts now) (hne : source ≠ target)
    (rest : Procedure Directory α) :
    (do
      if let some remaining := d.debited? delegator source balance then
        recordPower source remaining now
      if let some total := d.credited? delegator target balance then
        recordPower target total now
      rest : Procedure Directory α).perform d =
      rest.perform { d with power := d.movedPower delegator source target balance now } := by
  have hsecond (left : Amount) : ((d.power.put source left now).history target).Accepts now := by
    rwa [Ledger.history_put_of_ne (Ne.symm hne)]
  have hpair (left total : Amount) := perform_recordPower
    (d := { d with power := d.power.put source left now }) (hsecond left) total
  unfold debited? credited? movedPower
  by_cases hs : source = delegator <;> by_cases ht : target = delegator
  · exact absurd (hs.trans ht.symm) hne
  · simp only [if_pos hs, if_neg ht]
    rw [Procedure.perform_bind_ok (perform_recordPower htarget _)]
  · simp only [if_neg hs, if_pos ht]
    rw [Procedure.perform_bind_ok (perform_recordPower hsource _)]
  · simp only [if_neg hs, if_neg ht]
    rw [Procedure.perform_bind_ok (perform_recordPower hsource _),
      Procedure.perform_bind_ok (hpair _ _)]

/-- The writes to the lists of delegators and to the delegates, after those to the power. -/
theorem perform_redelegated (h : (d.history delegator).Accepts now) (power : Ledger)
    (source target : Account) (change : Option Redelegation) :
    (do
      modify (·.unlink delegator source)
      if target ≠ delegator then
        modify (·.link delegator target)
      recordDelegate delegator target now
      return change : Procedure Directory (Option Redelegation)).perform { d with power } =
      (.ok change, { d with
        records := d.records.insert delegator ⟨target, now⟩
        histories := d.histories.insert delegator ((d.history delegator).put now target)
        delegators := d.relinked delegator source target
        power }) := by
  let freed : Directory := { d with power, delegators := (d.unlink delegator source).delegators }
  have hfreed := perform_recordDelegate (d := freed) h target
  have hlinked := perform_recordDelegate (d := freed.link delegator target) h target
  rw [Procedure.perform_bind_ok (Procedure.perform_modify _ _), unlink_with_power]
  unfold relinked
  by_cases ht : target = delegator
  · rw [if_neg (not_not_intro ht), if_pos ht, Procedure.perform_bind_ok hfreed]
    rfl
  · rw [if_pos ht, if_neg ht, Procedure.perform_bind_ok (Procedure.perform_modify _ _),
      Procedure.perform_bind_ok hlinked]
    rfl

/-! ### The whole change -/

/-- What a change of delegate comes to when it is answered. -/
inductive Moves (d : Directory) (delegator target : Account) (balance : Amount)
    (now : Timestamp) : Option Redelegation → Directory → Prop where
  /-- `target` is the delegate already. -/
  | unchanged (same : d.currentDelegate delegator = target) :
      Moves d delegator target balance now none d
  | changed (movable : d.Movable delegator target balance now) :
      Moves d delegator target balance now
        (some ⟨delegator, d.currentDelegate delegator, target, balance⟩)
        (d.redelegated delegator target balance now)

/-- **A change of delegate is whole or leaves no trace.** The checks come first: debit, credit and
order. When they have passed, the conditions of the change hold, and none of the writes is
refused. -/
theorem delegate_settled (d : Directory) (delegator target : Account) (balance : Amount)
    (now : Timestamp) :
    (delegate delegator target balance now).Settled d (d.Moves delegator target balance now)
      (d.MoveRefused delegator target balance now) := by
  unfold delegate
  refine .get (.ite (fun hsame => ?_) fun hne => ?_)
  · exact .of_ok (Procedure.perform_pure none d) (.unchanged hsame)
  refine settled_debit .debit fun hdebit => settled_credit .credit fun hcredit =>
    .check (fun f => .order) fun _ horder => ?_
  obtain ⟨hsource, htarget, hown⟩ := checkOrder_eq_ok_iff.1 horder
  refine .of_ok ?_ (.changed ⟨hne, hdebit, hcredit, hsource, htarget, hown⟩)
  exact (perform_movedPower hsource htarget hne _).trans (perform_redelegated hown _ _ _ _)

/-! ### A change of balance -/

/-- What a change of the balance of `delegator` from `old` to `new` does to its delegate. -/
inductive Carries (d : Directory) (delegator : Account) (old new : Amount) (now : Timestamp) :
    Directory → Prop where
  /-- The account votes for itself, or nothing changed. -/
  | kept (own : d.currentDelegate delegator = delegator ∨ old = new) :
      Carries d delegator old new now d
  /-- The power of the delegate changes by as much as the balance. -/
  | carried {power : Amount} (delegating : d.currentDelegate delegator ≠ delegator)
      (differs : old ≠ new)
      (order : (d.power.history (d.currentDelegate delegator)).Accepts now)
      (exact : power.val + old.val =
        (d.power.latestValue (d.currentDelegate delegator)).val + new.val) :
      Carries d delegator old new now
        { d with power := d.power.put (d.currentDelegate delegator) power now }

/-- Why a change of balance is refused. -/
inductive CarryRefused (d : Directory) (delegator : Account) (old new : Amount)
    (now : Timestamp) : Fault → Prop where
  /-- The delegate cannot hold what is added. -/
  | full (delegating : d.currentDelegate delegator ≠ delegator) (grows : old < new)
      (full : 1 <<< 128 ≤
        (d.power.latestValue (d.currentDelegate delegator)).val + (new.val - old.val)) :
      CarryRefused d delegator old new now .overflow
  /-- The delegate has less than what is taken. -/
  | short (delegating : d.currentDelegate delegator ≠ delegator) (shrinks : new < old)
      (short : (d.power.latestValue (d.currentDelegate delegator)).val < old.val - new.val) :
      CarryRefused d delegator old new now .overflow
  /-- The power of the delegate would go back in time. -/
  | order {f : Fault} (delegating : d.currentDelegate delegator ≠ delegator) (differs : old ≠ new)
      (late : d.power.checkOrder (d.currentDelegate delegator) now = .error f) :
      CarryRefused d delegator old new now f

/-- **A change of balance is carried over whole or leaves no trace.** The ledger makes its own
checks, and the one write comes after them. -/
theorem balanceChanged_settled (d : Directory) (delegator : Account) (old new : Amount)
    (now : Timestamp) :
    (balanceChanged delegator old new now).Settled d (fun _ => d.Carries delegator old new now)
      (d.CarryRefused delegator old new now) := by
  unfold balanceChanged
  refine .get (.ite (fun hown => ?_) fun hne => ?_)
  · exact .of_ok (Procedure.perform_pure () d) (.kept hown)
  obtain ⟨hd, hv⟩ := not_or.1 hne
  refine .ite (fun hlt => .check (fun f hf => ?_) fun power hp => ?_)
    fun hge => .check (fun f hf => ?_) fun power hp => ?_
  · rcases Ledger.increase_eq_error_iff.1 hf with ⟨hfull, rfl⟩ | ⟨-, hlate⟩
    · exact .full hd hlt hfull
    · exact .order hd hv hlate
  · obtain ⟨hsum, ho, rfl⟩ := Ledger.increase_eq_ok_iff.1 hp
    refine .of_ok (Procedure.perform_modify _ d) (.carried hd hv ho ?_)
    rw [Quantity.saturatingAdd_val_of_lt hsum, Quantity.saturatingSub_val]
    rw [Quantity.lt_def] at hlt
    omega
  · have hlt : new.val < old.val := by
      have : old.val ≠ new.val := fun e => hv (Quantity.ext e)
      rw [Quantity.lt_def] at hge
      omega
    rcases Ledger.decrease_eq_error_iff.1 hf with ⟨hshort, rfl⟩ | ⟨-, hlate⟩
    · exact .short hd hlt hshort
    · exact .order hd hv hlate
  · obtain ⟨hle, ho, rfl⟩ := Ledger.decrease_eq_ok_iff.1 hp
    refine .of_ok (Procedure.perform_modify _ d) (.carried hd hv ho ?_)
    rw [Quantity.saturatingSub_val] at hle
    rw [Quantity.saturatingSub_val, Quantity.saturatingSub_val]
    rw [Quantity.lt_def] at hge
    omega

end Directory
end TokenGovernance
