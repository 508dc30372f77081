/-
# Amendments

The payload of a proposal that targets the parameter store is an amendment: it replaces the whole
record or sets one value. Either way the version goes up by one and the result must be sound.
Nobody but an executed proposal amends the parameters.
-/

import TokenGovernance.Fault

namespace TokenGovernance

/-- A change of the parameters. -/
inductive Amendment where
  /-- Replaces the record; its version is ignored. -/
  | replace (record : Parameters)
  /-- Sets one value. -/
  | set (parameter : Parameter) (value : Amount)
deriving DecidableEq

namespace Amendment

/-- The record with the new values, its version not yet raised. -/
def newValues (a : Amendment) (current : Parameters) : Except Fault Parameters :=
  match a with
  | replace record => .ok record
  | set parameter value =>
    match parameter.write? value current with
    | some record => .ok record
    | none => .error (.invalidParameters (.tooLarge parameter))

/-- The record that an amendment makes of the current one. -/
def apply (a : Amendment) (current : Parameters) : Except Fault Parameters := do
  let record ← a.newValues current
  let version ← Fault.orOverflow (current.version.succ?)
  let record := { record with version }
  record.validate
  return record

end Amendment

/-- Who asks for a change of the parameters. -/
inductive Origin where
  /-- An account on its own behalf. -/
  | account (caller : Account)
  /-- The execution of a proposal that succeeded. -/
  | governance

/-- The record that `origin` may put in place of the current one. -/
def Parameters.replaceBy (next : Parameters) (origin : Origin) : Except Fault Parameters :=
  match origin with
  | .account caller => .error (.notGovernance caller)
  | .governance => do
    next.validate
    return next

end TokenGovernance
