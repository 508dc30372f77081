/-
# Amendments are assignments

A record of parameters is a row of five values with a version, and it is determined by them
(`Parameters.ext_values`). An amendment that goes through assigns some of the values and counts the
version up:

| amendment | assigns | refused |
| --- | --- | --- |
| replace | all five values, whatever version comes with them | for a result that is unsound |
| set | one value, the other four are kept | also for a value that is too large |

Either is refused when the version is the largest there is. A row of amendments leaves the last
assignment of each value, so the order of assignments to different values does not show
(`Amendment.apply_lens`).
-/

import TokenGovernance.Proofs.Amendment
import Mathlib.Data.List.Nodup
import Mathlib.Logic.Function.Basic
import Mathlib.Tactic.MkIffOfInductiveProp

namespace TokenGovernance

variable {p q : Parameter} {v : Amount} {r r' current next final : Parameters}

/-! ### A record as a row of values -/

namespace Parameter

/-- How many binary digits a value may have. -/
def bits : Parameter → Nat
  | votingDelay | votingPeriod | executionDelay => 64
  | proposalThreshold | quorumThreshold => 128

/-- A duration is told by the number it is widened to. -/
theorem widen_injective {d d' : Duration} (h : widen d = widen d') : d = d' := by
  have hval : (widen d).val = (widen d').val := by rw [h]
  exact Quantity.ext hval

end Parameter

namespace Parameters

/-- The values of a record, by parameter. -/
def values (r : Parameters) : Parameter → Amount := fun p => p.read r

/-- Nothing but the values and the version makes a record. -/
theorem ext_values (hvalues : r.values = r'.values) (hversion : r.version = r'.version) :
    r = r' := by
  have hread (p : Parameter) : p.read r = p.read r' := congrFun hvalues p
  obtain ⟨delay, period, proposal, quorum, execution, version⟩ := r
  obtain ⟨delay', period', proposal', quorum', execution', version'⟩ := r'
  obtain rfl : delay = delay' := Parameter.widen_injective (hread .votingDelay)
  obtain rfl : period = period' := Parameter.widen_injective (hread .votingPeriod)
  obtain rfl : proposal = proposal' := hread .proposalThreshold
  obtain rfl : quorum = quorum' := hread .quorumThreshold
  obtain rfl : execution = execution' := Parameter.widen_injective (hread .executionDelay)
  obtain rfl : version = version' := hversion
  rfl

/-- The version is none of the values that an amendment can name. -/
theorem values_withVersion (r : Parameters) (version : Quantity 64) :
    { r with version }.values = r.values := by
  funext p
  cases p <;> rfl

/-- Values are sound when the window is not empty and the three lengths of time add up in range. -/
@[mk_iff]
structure SoundValues (values : Parameter → Amount) : Prop where
  /-- The window is not empty. -/
  period : (values .votingPeriod).val ≠ 0
  /-- The exact sum of the three lengths of time is in range. -/
  span : (values .votingDelay).val + (values .votingPeriod).val + (values .executionDelay).val <
    1 <<< 64

/-- A record has no defect exactly when its values are sound. -/
theorem defect?_eq_none_iff : r.defect? = none ↔ SoundValues r.values := by
  have hspan : (r.votingDelay.add? r.votingPeriod).bind (·.add? r.executionDelay) ≠ none ↔
      r.votingDelay.val + r.votingPeriod.val + r.executionDelay.val < 1 <<< 64 := by
    rcases hsum : r.votingDelay.add? r.votingPeriod with _ | sum
    · rw [Quantity.add?_eq_none_iff] at hsum
      simp only [Option.bind_none, ne_eq, not_true_eq_false, false_iff]
      omega
    · rw [Quantity.add?_eq_some_iff] at hsum
      rw [Option.bind_some, ne_eq, Quantity.add?_eq_none_iff, hsum]
      omega
  unfold defect?
  by_cases hperiod : r.votingPeriod.isZero = true
  · rw [if_pos hperiod]
    exact ⟨nofun, fun h => absurd (Quantity.isZero_iff.1 hperiod) h.period⟩
  · rw [if_neg hperiod]
    rw [Quantity.isZero_iff] at hperiod
    split
    · rename_i hnone
      exact ⟨nofun, fun h => absurd hnone (hspan.2 h.span)⟩
    · rename_i hsome
      exact ⟨fun _ => ⟨hperiod, hspan.1 (by rw [hsome]; nofun)⟩, fun _ => rfl⟩

end Parameters

namespace Parameter

/-- A value that is not too large can be written. -/
theorem exists_write?_of_lt (h : v.val < 1 <<< p.bits) (r : Parameters) :
    ∃ r', p.write? v r = some r' := by
  cases p
  case proposalThreshold | quorumThreshold => exact ⟨_, rfl⟩
  all_goals
    have hseconds : (Quantity.ofNat? v.val : Option Duration) = some ⟨v.val, h⟩ := dif_pos h
    exact ⟨_, by simp only [write?, hseconds, Option.map_some]; rfl⟩

/-- **Writing is assignment**, of a value that is not too large. -/
theorem values_of_write? (h : p.write? v r = some r') :
    v.val < 1 <<< p.bits ∧ r'.values = Function.update r.values p v ∧
      r'.version = r.version := by
  cases p
  case proposalThreshold | quorumThreshold =>
    cases h
    refine ⟨v.val_lt, funext fun q => ?_, rfl⟩
    cases q <;> rfl
  all_goals
    obtain ⟨seconds, hseconds, rfl⟩ := Option.map_eq_some_iff.1 h
    rw [Quantity.ofNat?_eq_some_iff] at hseconds
    obtain rfl : widen seconds = v := Quantity.ext hseconds
    refine ⟨seconds.val_lt, funext fun q => ?_, rfl⟩
    cases q <;> rfl

end Parameter

namespace Amendment

variable {a : Amendment} {amendments : List Amendment}

/-! ### One amendment -/

/-- What an amendment assigns to a parameter, if anything. -/
def written? (a : Amendment) (q : Parameter) : Option Amount :=
  match a with
  | replace record => some (record.values q)
  | set p v => if q = p then some v else none

/-- The values after an amendment of a record with values `before`. -/
def assign (a : Amendment) (before : Parameter → Amount) : Parameter → Amount :=
  fun q => (a.written? q).getD (before q)

/-- Whether what is assigned is not too large. -/
def Fits : Amendment → Prop
  | replace _ => True
  | set p v => v.val < 1 <<< p.bits

/-- To set one parameter is to update the values at its place. -/
theorem assign_set (p : Parameter) (v : Amount) (before : Parameter → Amount) :
    (set p v).assign before = Function.update before p v := by
  funext q
  by_cases hq : q = p
  · subst hq
    simp [assign, written?]
  · simp [assign, written?, hq]

/-- What is assigned is not too large, or there are no new values. -/
theorem exists_newValues_of_fits (h : a.Fits) (current : Parameters) :
    ∃ record, a.newValues current = .ok record := by
  cases a with
  | replace record => exact ⟨record, rfl⟩
  | set p v =>
    obtain ⟨record, hwrite⟩ := Parameter.exists_write?_of_lt h current
    exact ⟨record, by simp only [newValues, hwrite]⟩

/-- The new values are the old ones after the assignment. -/
theorem values_of_newValues (h : a.newValues current = .ok r) :
    a.Fits ∧ r.values = a.assign current.values := by
  cases a with
  | replace record =>
    cases h
    exact ⟨trivial, rfl⟩
  | set p v =>
    simp only [newValues] at h
    split at h
    · rename_i record hwrite
      cases h
      obtain ⟨hfits, hvalues, -⟩ := Parameter.values_of_write? hwrite
      exact ⟨hfits, hvalues.trans (assign_set p v current.values).symm⟩
    · cases h

/-- **An amendment is an assignment.** It goes through exactly if what it assigns is not too large,
there is a next version, and the values after the assignment are sound; and these values with that
version are the new record. -/
theorem apply_eq_ok_iff : a.apply current = .ok next ↔ a.Fits ∧
    next.values = a.assign current.values ∧ next.version.val = current.version.val + 1 ∧
      Parameters.SoundValues next.values := by
  rw [← Parameters.defect?_eq_none_iff, ← Parameters.validate_eq_ok_iff]
  constructor
  · intro h
    have hversion := version_of_apply h
    have hvalid := validate_of_apply h
    obtain ⟨record, hrecord, h⟩ := Fault.bind_eq_ok_iff.1 h
    obtain ⟨version, -, h⟩ := Fault.bind_eq_ok_iff.1 h
    obtain ⟨_, -, h⟩ := Fault.bind_eq_ok_iff.1 h
    obtain rfl := Fault.pure_eq_ok_iff.1 h
    obtain ⟨hfits, hvalues⟩ := values_of_newValues hrecord
    exact ⟨hfits, (Parameters.values_withVersion record version).trans hvalues, hversion, hvalid⟩
  · rintro ⟨hfits, hvalues, hversion, hvalid⟩
    obtain ⟨record, hrecord⟩ := exists_newValues_of_fits hfits current
    have hnext : { record with version := next.version } = next :=
      Parameters.ext_values ((Parameters.values_withVersion record next.version).trans
        ((values_of_newValues hrecord).2.trans hvalues.symm)) rfl
    refine Fault.bind_eq_ok_iff.2 ⟨record, hrecord, Fault.bind_eq_ok_iff.2
      ⟨next.version, Quantity.checkedSucc_eq_ok_iff.2 hversion, ?_⟩⟩
    simp only [hnext]
    exact Fault.bind_eq_ok_iff.2 ⟨(), hvalid, rfl⟩

/-- An amendment goes through exactly if its values fit, there is a next version, and the values
after the assignment are sound. -/
theorem exists_apply_iff : (∃ next, a.apply current = .ok next) ↔ a.Fits ∧
    current.version.val + 1 < 1 <<< 64 ∧ Parameters.SoundValues (a.assign current.values) := by
  constructor
  · rintro ⟨next, h⟩
    obtain ⟨hfits, hvalues, hversion, hsound⟩ := apply_eq_ok_iff.1 h
    exact ⟨hfits, hversion ▸ next.version.val_lt, hvalues ▸ hsound⟩
  · rintro ⟨hfits, hversion, hsound⟩
    obtain ⟨record, hrecord⟩ := exists_newValues_of_fits hfits current
    have hvalues := (values_of_newValues hrecord).2
    let next : Parameters := { record with version := ⟨current.version.val + 1, hversion⟩ }
    have hnext : next.values = a.assign current.values :=
      (Parameters.values_withVersion record _).trans hvalues
    exact ⟨next, apply_eq_ok_iff.2 ⟨hfits, hnext, rfl, hnext ▸ hsound⟩⟩

/-- **Setting a value is replacing the record** by any with this value and the other four kept. -/
theorem apply_replace_of_set (h : (set p v).apply current = .ok next)
    (hr : r.values = Function.update current.values p v) :
    (replace r).apply current = .ok next := by
  obtain ⟨-, hvalues, hversion, hsound⟩ := apply_eq_ok_iff.1 h
  exact apply_eq_ok_iff.2
    ⟨trivial, hvalues.trans ((assign_set p v current.values).trans hr.symm), hversion, hsound⟩

/-! ### Amendments in a row -/

/-- The record after a row of amendments, if all of them go through. -/
def applyAll (amendments : List Amendment) (current : Parameters) : Except Fault Parameters :=
  amendments.foldlM (fun record a => a.apply record) current

/-- What the last amendment of a row that assigns to a parameter assigns to it, if there is one. -/
def lastWritten? (amendments : List Amendment) (q : Parameter) : Option Amount :=
  amendments.reverse.findSome? (·.written? q)

/-- The last write is looked for in the later amendments first. -/
theorem lastWritten?_cons (a : Amendment) (amendments : List Amendment) (q : Parameter) :
    lastWritten? (a :: amendments) q = (lastWritten? amendments q).or (a.written? q) := by
  simp [lastWritten?, List.findSome?_append]

/-- **The last assignment stays,** and each amendment counts as a version. -/
theorem applyAll_eq_ok (h : applyAll amendments current = .ok final) :
    (∀ q, final.values q = (lastWritten? amendments q).getD (current.values q)) ∧
      final.version.val = current.version.val + amendments.length := by
  induction amendments generalizing current with
  | nil =>
    cases h
    exact ⟨fun _ => rfl, rfl⟩
  | cons a amendments ih =>
    obtain ⟨next, hnext, hrest⟩ := Fault.bind_eq_ok_iff.1 h
    obtain ⟨-, hvalues, hversion, -⟩ := apply_eq_ok_iff.1 hnext
    obtain ⟨hlast, hlength⟩ := ih hrest
    refine ⟨fun q => ?_, by rw [hlength, hversion, List.length_cons]; omega⟩
    rw [hlast, lastWritten?_cons, hvalues]
    rcases lastWritten? amendments q with _ | value <;> rfl

/-- A row of settings. -/
def settings (assignments : List (Parameter × Amount)) : List Amendment :=
  assignments.map fun assignment => set assignment.1 assignment.2

/-- The last assignment of a row of settings is one of them. -/
theorem mem_of_lastWritten? {assignments : List (Parameter × Amount)}
    (h : lastWritten? (settings assignments) q = some v) : (q, v) ∈ assignments := by
  obtain ⟨a, hmem, ha⟩ := List.exists_of_findSome?_eq_some h
  rw [List.mem_reverse, settings, List.mem_map] at hmem
  obtain ⟨⟨p, w⟩, hmem, rfl⟩ := hmem
  rw [written?, Option.ite_none_right_eq_some] at ha
  obtain ⟨rfl, hw⟩ := ha
  cases hw
  exact hmem

/-- Where no two assignments are to one parameter, each is the last to its own. -/
theorem lastWritten?_settings {assignments : List (Parameter × Amount)}
    (distinct : (assignments.map Prod.fst).Nodup) :
    lastWritten? (settings assignments) q = some v ↔ (q, v) ∈ assignments := by
  refine ⟨mem_of_lastWritten?, fun hmem => ?_⟩
  rcases hlast : lastWritten? (settings assignments) q with _ | w
  · have hnone := List.findSome?_eq_none_iff.1 hlast (set q v)
      (List.mem_reverse.2 (List.mem_map.2 ⟨(q, v), hmem, rfl⟩))
    simp [written?] at hnone
  · exact congrArg some
      (Prod.ext_iff.1 (List.inj_on_of_nodup_map distinct (mem_of_lastWritten? hlast) hmem rfl)).2

/-- **Assignments to different parameters commute.** -/
theorem eq_of_perm {assignments reordered : List (Parameter × Amount)}
    (distinct : (assignments.map Prod.fst).Nodup) (hperm : assignments.Perm reordered)
    (h : applyAll (settings assignments) current = .ok next)
    (h' : applyAll (settings reordered) current = .ok final) : next = final := by
  have distinct' : (reordered.map Prod.fst).Nodup := (hperm.map Prod.fst).nodup_iff.1 distinct
  obtain ⟨hlast, hversion⟩ := applyAll_eq_ok h
  obtain ⟨hlast', hversion'⟩ := applyAll_eq_ok h'
  have hsame (q : Parameter) :
      lastWritten? (settings assignments) q = lastWritten? (settings reordered) q := by
    refine Option.ext fun v => ?_
    rw [lastWritten?_settings distinct, lastWritten?_settings distinct', hperm.mem_iff]
  refine Parameters.ext_values (funext fun q => ?_) (Quantity.ext ?_)
  · rw [hlast, hlast', hsame]
  · rw [hversion, hversion', settings, settings, List.length_map, List.length_map, hperm.length_eq]

/-- **Amendments are lenses.** A setting of one value goes through exactly if the value is in the
range of its parameter, the version is not the largest there is, and with this value in place the
voting period is not zero and the exact sum of the three lengths of time is in range. Then the value
reads as it was set, every other one as it was before, the version is one higher, and the result is
that of the replacement by any record with these values, whatever its version. After a row of
amendments of any length that go through each value is the one assigned last, or the one before
the row where none assigned it. So settings of different values lead to one record, in any two
orders that go through. -/
theorem apply_lens (current : Parameters) :
    (∀ p v, (∃ next, (set p v).apply current = .ok next) ↔
      v.val < 1 <<< p.bits ∧ current.version.val < 1 <<< 64 - 1 ∧
        let values := Function.update current.values p v
        (values .votingPeriod).val ≠ 0 ∧
          (values .votingDelay).val + (values .votingPeriod).val + (values .executionDelay).val ≤
            1 <<< 64 - 1) ∧
    (∀ p v next, (set p v).apply current = .ok next →
      p.read next = v ∧ (∀ q ≠ p, q.read next = q.read current) ∧
        next.version.val = current.version.val + 1 ∧
        ∀ record : Parameters, record.values = Function.update current.values p v →
          (replace record).apply current = .ok next) ∧
    (∀ amendments final, applyAll amendments current = .ok final →
      ∀ q, q.read final = (lastWritten? amendments q).getD (q.read current)) ∧
    ∀ assignments reordered, (assignments.map Prod.fst).Nodup → assignments.Perm reordered →
      ∀ next final, applyAll (settings assignments) current = .ok next →
        applyAll (settings reordered) current = .ok final → next = final := by
  refine ⟨fun p v => ?_, fun p v next h => ?_, fun amendments final h => (applyAll_eq_ok h).1,
    fun assignments reordered distinct hperm next final => eq_of_perm distinct hperm⟩
  · rw [exists_apply_iff, assign_set, Parameters.soundValues_iff]
    exact and_congr_right fun _ => and_congr (by omega) (and_congr_right fun _ => by omega)
  · obtain ⟨-, hvalues, hversion, -⟩ := apply_eq_ok_iff.1 h
    rw [assign_set] at hvalues
    refine ⟨?_, fun q hq => ?_, hversion, fun record => apply_replace_of_set h⟩
    · exact (congrFun hvalues p).trans (Function.update_self p v current.values)
    · exact (congrFun hvalues q).trans (Function.update_of_ne hq v current.values)

/-- The period is set to a minute and the quorum to seven, in one order and in the other; the first
of the two does what a replacement does, and a later replacement takes both back. -/
theorem apply_lens_of_defaults :
    let minute : Amount := ⟨60, by decide⟩
    let seven : Amount := ⟨7, by decide⟩
    let record : Parameters := { votingPeriod := ⟨60, by decide⟩, version := ⟨41, by decide⟩ }
    let assignments := [(Parameter.votingPeriod, minute), (Parameter.quorumThreshold, seven)]
    (∃ next, (set .votingPeriod minute).apply {} = .ok next ∧
      Parameter.read .votingPeriod next = minute ∧ (replace record).apply {} = .ok next) ∧
    (∃ final, applyAll (settings assignments ++ [replace {}]) {} = .ok final ∧
      Parameter.read .quorumThreshold final = .zero) ∧
    ∃ next final, applyAll (settings assignments) {} = .ok next ∧
      applyAll (settings assignments.reverse) {} = .ok final ∧ next = final := by
  intro minute seven record assignments
  obtain ⟨hset, hlens, hrow, hperm⟩ := apply_lens {}
  obtain ⟨next, hnext⟩ := (hset .votingPeriod minute).2
    ⟨by decide, by decide, by decide, by decide⟩
  obtain ⟨hread, -, -, hreplace⟩ := hlens _ _ _ hnext
  have hrecord : record.values = Function.update (Parameters.values {}) .votingPeriod minute := by
    funext q
    cases q <;> rfl
  let last : Parameters :=
    { votingPeriod := ⟨60, by decide⟩, quorumThreshold := seven, version := ⟨2, by decide⟩ }
  have hthere : applyAll (settings assignments) {} = .ok last := by decide +kernel
  have hother : applyAll (settings assignments.reverse) {} = .ok last := by decide +kernel
  have hback : applyAll (settings assignments ++ [replace {}]) {} =
      .ok { version := ⟨3, by decide⟩ } := by decide +kernel
  exact ⟨⟨next, hnext, hread, hreplace record hrecord⟩, ⟨_, hback, hrow _ _ hback _⟩,
    last, last, hthere, hother,
    hperm _ _ (by decide) (List.reverse_perm _).symm _ _ hthere hother⟩

end Amendment
end TokenGovernance
