/-
# Exact results of bounded arithmetic

A checked operation on quantities is refused exactly when the number it stands for leaves the
range, and otherwise it is the saturating operation, which is exact there.
-/

import TokenGovernance.Proofs.Fault

namespace TokenGovernance
namespace Quantity

variable {bits : Nat} {a b c : Quantity bits} {f : Fault}

/-- What is not below is at or above. -/
theorem not_lt : ¬a < b ↔ b ≤ a := Nat.not_lt

/-- What is not at or below is above. -/
theorem not_le : ¬a ≤ b ↔ b < a := Nat.not_le

/-- A quantity is zero when its number is. -/
theorem isZero_iff : a.isZero = true ↔ a.val = 0 := by
  simp [isZero]

/-- A saturating difference is the difference of the numbers, which stops at zero. -/
@[simp] theorem saturatingSub_val (a b : Quantity bits) :
    (a.saturatingSub b).val = a.val - b.val := rfl

/-- A sum in range is exact. -/
theorem saturatingAdd_val_of_lt (h : a.val + b.val < 1 <<< bits) :
    (a.saturatingAdd b).val = a.val + b.val := by
  rw [saturatingAdd_val]
  omega

/-- A checked sum has no result when it leaves the range. -/
theorem add?_eq_none_iff : a.add? b = none ↔ 1 <<< bits ≤ a.val + b.val := by
  unfold add? ofNat?
  split <;> simp <;> omega

/-- A checked successor has no result at the largest quantity. -/
theorem succ?_eq_none_iff : a.succ? = none ↔ 1 <<< bits ≤ a.val + 1 := by
  unfold succ? ofNat?
  split <;> simp <;> omega

/-- A checked difference has no result when it would be below zero. -/
theorem sub?_eq_none_iff : a.sub? b = none ↔ a.val < b.val := by
  unfold sub?
  split <;> simp <;> omega

/-- A checked sum is answered with the exact one. -/
theorem checkedAdd_eq_ok_iff :
    Fault.orOverflow (a.add? b) = .ok c ↔ a.val + b.val < 1 <<< bits ∧ c = a.saturatingAdd b := by
  rw [Fault.orOverflow_eq_ok_iff, add?_eq_some_iff]
  constructor
  · intro h
    have hlt : a.val + b.val < 1 <<< bits := h ▸ c.val_lt
    exact ⟨hlt, ext (h.trans (saturatingAdd_val_of_lt hlt).symm)⟩
  · rintro ⟨hlt, rfl⟩
    exact saturatingAdd_val_of_lt hlt

/-- A checked sum is refused when it leaves the range. -/
theorem checkedAdd_eq_error_iff :
    Fault.orOverflow (a.add? b) = .error f ↔ 1 <<< bits ≤ a.val + b.val ∧ f = .overflow := by
  rw [Fault.orOverflow_eq_error_iff, add?_eq_none_iff]

/-- A checked difference is answered with the exact one. -/
theorem checkedSub_eq_ok_iff :
    Fault.orOverflow (a.sub? b) = .ok c ↔ b.val ≤ a.val ∧ c = a.saturatingSub b := by
  rw [Fault.orOverflow_eq_ok_iff, sub?_eq_some_iff]
  constructor
  · rintro ⟨hle, hc⟩
    exact ⟨hle, ext hc⟩
  · rintro ⟨hle, rfl⟩
    exact ⟨hle, rfl⟩

/-- A checked difference is refused when it is negative. -/
theorem checkedSub_eq_error_iff :
    Fault.orOverflow (a.sub? b) = .error f ↔ a.val < b.val ∧ f = .overflow := by
  rw [Fault.orOverflow_eq_error_iff, sub?_eq_none_iff]

/-- A checked successor is answered with the exact one. -/
theorem checkedSucc_eq_ok_iff : Fault.orOverflow a.succ? = .ok c ↔ c.val = a.val + 1 := by
  rw [Fault.orOverflow_eq_ok_iff, succ?_eq_some_iff]

/-- A checked successor is refused when it leaves the range. -/
theorem checkedSucc_eq_error_iff :
    Fault.orOverflow a.succ? = .error f ↔ 1 <<< bits ≤ a.val + 1 ∧ f = .overflow := by
  rw [Fault.orOverflow_eq_error_iff, succ?_eq_none_iff]

end Quantity

namespace Timestamp

variable {t u : Timestamp} {d : Duration} {f : Fault}

/-- What is not before is at or after. -/
theorem not_lt : ¬t < u ↔ u ≤ t := Nat.not_lt

/-- What is not at or before is after. -/
theorem not_le : ¬t ≤ u ↔ u < t := Nat.not_le

/-- The instant `d` after `t`, where it is representable. -/
theorem checkedAfter_eq_ok_iff : Fault.orOverflow (t.after? d) = .ok u ↔ u.val = t.val + d.val := by
  rw [Fault.orOverflow_eq_ok_iff, after?_eq_some_iff]

/-- An instant later than the last there is is refused as an overflow. -/
theorem checkedAfter_eq_error_iff :
    Fault.orOverflow (t.after? d) = .error f ↔ 1 <<< 64 ≤ t.val + d.val ∧ f = .overflow := by
  rw [Fault.orOverflow_eq_error_iff, after?, Option.map_eq_none_iff, Quantity.add?_eq_none_iff]

/-- What has expired stays expired. -/
theorem hasExpired_of_le {now later : Timestamp} (h : now ≤ later)
    (expired : t.hasExpired d now = true) : t.hasExpired d later = true := by
  rw [hasExpired_iff] at expired ⊢
  exact Nat.le_trans expired h

end Timestamp
end TokenGovernance
