/-
# Written fields read back

The formats in which people read and write parameters differ in how a value looks and in how a
field is found. Whatever the format, the record is read back from its own fields if the format reads
back every value and finds every field under its name (`Parameters.ofFields?_fields`).
-/

import TokenGovernance.Parameters.Fields
import TokenGovernance.Proofs.Quantity

namespace TokenGovernance

section Rows

variable {α : Type} {before behind entries : List (String × α)} {name : String} {v : α}

/-- A name that comes later is not found among the entries in front of it. -/
theorem lookup_eq_none_of_nodup (hnodup : ((before ++ (name, v) :: behind).map Prod.fst).Nodup) :
    before.lookup name = none := by
  refine List.lookup_eq_none_iff.2 fun entry hentry => ?_
  rw [List.map_append] at hnodup
  have hne := (List.nodup_append.1 hnodup).2.2 entry.1 (List.mem_map_of_mem hentry) name
    List.mem_cons_self
  simpa using hne.symm

/-- Where no two names are the same, every entry is found under its name. -/
theorem lookup_eq_some_of_mem (hnodup : (entries.map Prod.fst).Nodup)
    (h : (name, v) ∈ entries) : entries.lookup name = some v := by
  obtain ⟨before, behind, rfl⟩ := List.append_of_mem h
  rw [List.lookup_append, lookup_eq_none_of_nodup hnodup, List.lookup_cons_self]
  rfl

end Rows

/-- The digits of an amount stand for the amount: no plus is among them, and they are read back. -/
theorem Amount.ofText?_repr (a : Amount) : Amount.ofText? a.val.repr = some a := by
  have hunsigned : Numeral.unsigned? a.val.repr.toList = some a.val := by
    rw [← Numeral.natural?_repr]
    unfold Numeral.unsigned?
    split
    · rename_i cs hcs
      rw [Nat.toList_repr] at hcs
      have hplus : Char.isDigit '+' = true :=
        Nat.isDigit_of_mem_toDigits (by decide) (by decide) (hcs ▸ List.mem_cons_self)
      cases hplus
    · rfl
  unfold Amount.ofText?
  rw [hunsigned]
  exact Quantity.ofNat?_val a

namespace Parameters

variable {α : Type} {word : Quantity 64 → α} {amount : Amount → α}
variable {word? : α → Option (Quantity 64)} {amount? : α → Option Amount}
variable {find : Nat → String → Option α} {p : Parameters}

/-- The names of the fields differ from each other. -/
theorem nodup_names : ((p.fields word amount).map Prod.fst).Nodup := by
  show [Parameter.votingDelay.name, Parameter.votingPeriod.name, Parameter.proposalThreshold.name,
    Parameter.quorumThreshold.name, Parameter.executionDelay.name, versionName].Nodup
  decide

/-- **Where values read back and fields are found, the record reads back.** -/
theorem ofFields?_fields (hword : ∀ q, word? (word q) = some q)
    (hamount : ∀ a, amount? (amount a) = some a)
    (hfind : ∀ place name v, (p.fields word amount)[place]? = some (name, v) →
      find place name = some v) :
    ofFields? word? amount? find = some p := by
  have h₀ := hfind 0 _ _ rfl
  have h₁ := hfind 1 _ _ rfl
  have h₂ := hfind 2 _ _ rfl
  have h₃ := hfind 3 _ _ rfl
  have h₄ := hfind 4 _ _ rfl
  have h₅ := hfind 5 _ _ rfl
  simp only [ofFields?, h₀, h₁, h₂, h₃, h₄, h₅, hword, hamount]
  rfl

end Parameters
end TokenGovernance
