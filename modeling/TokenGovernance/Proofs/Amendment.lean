/-
# Sound parameters

A record is accepted exactly when it has no defect. What an amendment makes of the current record
was checked on the way, so the execution of a proposal can put it in place without a refusal. Its
version is one higher, so no amendment leaves the record as it was.
-/

import TokenGovernance.Amendment
import TokenGovernance.Proofs.Quantity

namespace TokenGovernance

variable {parameters current next : Parameters} {amendment : Amendment} {f : Fault}

namespace Parameters

/-- A record is accepted when nothing in it is unsound. -/
theorem validate_eq_ok_iff : parameters.validate = .ok () ↔ parameters.defect? = none := by
  unfold validate
  rcases parameters.defect? with _ | defect <;> simp

/-- A record is refused for the first thing in it that is unsound. -/
theorem validate_eq_error_iff : parameters.validate = .error f ↔
    ∃ defect, parameters.defect? = some defect ∧ f = .invalidParameters (.unsound defect) := by
  unfold validate
  rcases parameters.defect? with _ | defect <;> simp [eq_comm]

end Parameters

namespace Amendment

/-- What an amendment makes of a record is sound. -/
theorem validate_of_apply (h : amendment.apply current = .ok next) : next.validate = .ok () := by
  obtain ⟨record, -, h⟩ := Fault.bind_eq_ok_iff.1 h
  obtain ⟨version, -, h⟩ := Fault.bind_eq_ok_iff.1 h
  obtain ⟨_, hv, h⟩ := Fault.bind_eq_ok_iff.1 h
  rw [Fault.pure_eq_ok_iff.1 h, hv]

/-- An amendment raises the version by one. -/
theorem version_of_apply (h : amendment.apply current = .ok next) :
    next.version.val = current.version.val + 1 := by
  obtain ⟨record, -, h⟩ := Fault.bind_eq_ok_iff.1 h
  obtain ⟨version, hversion, h⟩ := Fault.bind_eq_ok_iff.1 h
  obtain ⟨_, -, h⟩ := Fault.bind_eq_ok_iff.1 h
  rw [Fault.pure_eq_ok_iff.1 h]
  exact Quantity.checkedSucc_eq_ok_iff.1 hversion

/-- The version grows with each amendment, so no amendment leaves the record as it is. -/
theorem ne_of_apply (h : amendment.apply current = .ok next) : next ≠ current := by
  intro heq
  have := version_of_apply h
  rw [heq] at this
  omega

/-- An amendment is refused for the record it makes, or for want of a version. -/
theorem apply_eq_error (h : amendment.apply current = .error f) :
    (f = .overflow ∧ 1 <<< 64 ≤ current.version.val + 1) ∨ ∃ why, f = .invalidParameters why := by
  rcases Fault.bind_eq_error_iff.1 h with h | ⟨record, -, h⟩
  · cases amendment with
    | replace record => cases h
    | set parameter value =>
      simp only [newValues] at h
      split at h
      · cases h
      · cases h
        exact .inr ⟨_, rfl⟩
  rcases Fault.bind_eq_error_iff.1 h with h | ⟨version, -, h⟩
  · exact .inl (Quantity.checkedSucc_eq_error_iff.1 h).symm
  rcases Fault.bind_eq_error_iff.1 h with h | ⟨-, -, h⟩
  · obtain ⟨defect, -, hf⟩ := Parameters.validate_eq_error_iff.1 h
    exact .inr ⟨_, hf⟩
  · cases h

/-- What an amendment makes of a record may be put in its place by governance. -/
theorem replaceBy_of_apply (h : amendment.apply current = .ok next) :
    next.replaceBy .governance = .ok next := by
  unfold Parameters.replaceBy
  simp only [validate_of_apply h]
  rfl

end Amendment
end TokenGovernance
