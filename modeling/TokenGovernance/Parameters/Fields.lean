/-
# Parameters as fields

Where people read and write parameters, the record is a row of six named fields: the five
governable values and the version. A field that is missing takes its default. An amount is written
as a number as long as it fits into 63 bits, which every format can hold, and as a text of decimal
digits beyond that; both forms are read.
-/

import TokenGovernance.Parameters
import TokenGovernance.Text.Numeral

namespace TokenGovernance
namespace Amount

/-- The largest amount that is written as a number. -/
def greatestNumber : Nat := 1 <<< 63 - 1

/-- Whether an amount is written as a number. -/
def isNumber (a : Amount) : Bool := a.val ≤ greatestNumber

/-- The amount that a text stands for: decimal digits, with or without a plus in front. -/
def ofText? (s : String) : Option Amount := (Numeral.unsigned? s.toList).bind Quantity.ofNat?

end Amount

namespace Parameters

/-- The name under which the version is written. -/
def versionName : String := "version"

/-- The record whose fields `find` looks up by place and name, read as whole numbers and as
amounts. -/
def ofFields? {α : Type} (word? : α → Option (Quantity 64)) (amount? : α → Option Amount)
    (find : Nat → String → Option α) : Option Parameters := do
  let d : Parameters := {}
  let read {β : Type} (place : Nat) (name : String) (f : α → Option β) (default : β) : Option β :=
    match find place name with
    | some v => f v
    | none => some default
  return {
    votingDelay := ← read 0 Parameter.votingDelay.name word? d.votingDelay
    votingPeriod := ← read 1 Parameter.votingPeriod.name word? d.votingPeriod
    proposalThreshold := ← read 2 Parameter.proposalThreshold.name amount? d.proposalThreshold
    quorumThreshold := ← read 3 Parameter.quorumThreshold.name amount? d.quorumThreshold
    executionDelay := ← read 4 Parameter.executionDelay.name word? d.executionDelay
    version := ← read 5 versionName word? d.version }

/-- The fields of a record with their names, written as whole numbers and as amounts. -/
def fields {α : Type} (word : Quantity 64 → α) (amount : Amount → α) (p : Parameters) :
    List (String × α) :=
  [(Parameter.votingDelay.name, word p.votingDelay),
    (Parameter.votingPeriod.name, word p.votingPeriod),
    (Parameter.proposalThreshold.name, amount p.proposalThreshold),
    (Parameter.quorumThreshold.name, amount p.quorumThreshold),
    (Parameter.executionDelay.name, word p.executionDelay),
    (versionName, word p.version)]

end Parameters
end TokenGovernance
