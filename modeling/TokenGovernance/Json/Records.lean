/-
# Amounts and parameters as JSON

An amount is a number as long as it fits into 63 bits, which every reader can hold, and its decimal
digits as a text beyond that. Both forms are read for every amount, the number up to 64 bits.

Parameters are an object with one member for each value. Members that are missing take their
defaults, others are ignored, and the values alone may be given as a list in their order.
-/

import TokenGovernance.Json.Value
import TokenGovernance.Parameters.Fields
import TokenGovernance.Text.Quoted

namespace TokenGovernance
namespace Json

/-- Why a JSON value is no amount. -/
inductive Mismatch where
  /-- A number below zero. -/
  | negative (n : Number)
  /-- A text that is no amount. -/
  | badText (s : String)
  /-- A number that is no whole number of 64 bits. -/
  | fraction (n : Number)
  | bool (b : Bool)
  | null
  | array
  | object

/-- What is said of a value that is no amount. -/
def Mismatch.message (m : Mismatch) : String :=
  let found :=
    match m with
    | negative n => s!"invalid value: integer `{n.render}`"
    | badText s => "invalid value: string " ++ Quoted.render s
    | fraction n => s!"invalid type: floating point `{n.render}`"
    | bool b => s!"invalid type: boolean `{b}`"
    | null => "invalid type: null"
    | array => "invalid type: sequence"
    | object => "invalid type: map"
  found ++ ", expected a non-negative token amount"

/-- An amount as a value. -/
def ofAmount (a : Amount) : Value :=
  if a.isNumber then .number (.natural a.val) else .text a.val.repr

/-- The amount that a value stands for. -/
def amount (v : Value) : Except Mismatch Amount :=
  match v with
  | .number n =>
    match n with
    | .natural k =>
      match Quantity.ofNat? k with
      | some a => .ok a
      | none => .error (.fraction n)
    | .negative _ => .error (.negative n)
    | .float .. => .error (.fraction n)
  | .text s =>
    match Amount.ofText? s with
    | some a => .ok a
    | none => .error (.badText s)
  | .bool b => .error (.bool b)
  | .null => .error .null
  | .array _ => .error .array
  | .object _ => .error .object

/-- A whole number as a value. -/
def ofWord (q : Quantity 64) : Value := .number (.natural q.val)

/-- The whole number that a value is. -/
def word? : Value → Option (Quantity 64)
  | .number (.natural n) => Quantity.ofNat? n
  | _ => none

/-- The amount that a value stands for, if it is one. -/
def amount? (v : Value) : Option Amount := (amount v).toOption

/-- Parameters as a value. -/
def ofParameters (p : Parameters) : Value := .object (p.fields ofWord ofAmount)

/-- The parameters that a value stands for. -/
def parameters? : Value → Option Parameters
  | .object members => Parameters.ofFields? word? amount? fun _ name => member? members name
  | .array items =>
    if items.length ≤ 6 then Parameters.ofFields? word? amount? fun place _ => items[place]?
    else none
  | _ => none

end Json
end TokenGovernance
