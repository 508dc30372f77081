/-
# Accounts

An account is named by `civ_` and at least one more character; what follows the four characters is
the hosting ledger's affair. Accounts are ordered by the bytes of their names, which is the order
of the code points, and the maps of the library are sorted by that order, so that equal maps are
the same map.
-/

import Std.Data.ExtTreeMap
import Std.Data.ExtTreeSet
import TokenGovernance.Text.Quoted

namespace TokenGovernance

namespace Account

/-- Whether a text names an account. -/
def isName (s : String) : Bool :=
  match s.toList with
  | 'c' :: 'i' :: 'v' :: '_' :: _ :: _ => true
  | _ => false

end Account

/-- A participant, known by name alone. -/
structure Account where
  /-- The whole name, `civ_` included. -/
  name : String
  /-- The name is that of an account. -/
  isName_name : Account.isName name = true
deriving DecidableEq

namespace Account

/-- The account with this name, if the text names one. -/
def ofName? (s : String) : Option Account :=
  if h : isName s then some ⟨s, h⟩ else none

/-- What is said of a text that names no account. -/
def malformedMessage (s : String) : String := "invalid account id: " ++ Quoted.render s

instance : ToString Account := ⟨name⟩

/-- Two accounts of one name are one account: the check of the name carries nothing more. -/
@[ext] theorem ext {a b : Account} (h : a.name = b.name) : a = b := by
  cases a; cases b; simp_all

/-- **Exactly the names of accounts are accepted, unchanged.** -/
theorem ofName?_eq_some_iff {s : String} {a : Account} : ofName? s = some a ↔ a.name = s := by
  unfold ofName?
  split
  · constructor
    · intro h
      cases h
      rfl
    · intro h
      exact congrArg some (ext h.symm)
  · rename_i h
    constructor
    · intro h'
      cases h'
    · rintro rfl
      exact absurd a.isName_name h

/-- The name of an account passes the check again. -/
@[simp] theorem ofName?_name (a : Account) : ofName? a.name = some a :=
  ofName?_eq_some_iff.2 rfl

instance : Ord Account := ⟨fun a b => compare a.name b.name⟩

instance : Std.TransOrd Account where
  eq_swap := (inferInstance : Std.TransOrd String).eq_swap
  isLE_trans := (inferInstance : Std.TransOrd String).isLE_trans

instance : Std.LawfulEqOrd Account where
  eq_of_compare h :=
    ext ((inferInstance : Std.LawfulEqOrd String).eq_of_compare h)
  compare_self := (inferInstance : Std.LawfulEqOrd String).compare_self

end Account

/-- A map from accounts, sorted by account. -/
abbrev AccountMap (α : Type) := Std.ExtTreeMap Account α

/-- A set of accounts. -/
abbrev AccountSet := Std.ExtTreeSet Account

end TokenGovernance
