/-
# JSON numbers

A number without fraction and exponent is a whole number if it fits into 64 bits, with a sign or
without one; every other number, minus zero included, is a floating-point number. Of the digits of
such a number as many count as fit into 64 bits.

A floating-point number is shown by its shortest decimal, with at least one place behind the point:

| decimal point, counted from the first digit | form |
| --- | --- |
| at 1 to 16 | `1500.0`, `12.25` |
| at -4 to 0 | `0.00125` |
| elsewhere | `1e+16`, `1.25e-7` |
-/

import TokenGovernance.Decimal.Shortest
import TokenGovernance.Text.Numeral
import TokenGovernance.Text.Reader

namespace TokenGovernance
namespace Json

/-- A number of a JSON text. -/
inductive Number where
  /-- A whole number of at most 64 binary digits. -/
  | natural (n : Nat)
  /-- The whole number `-n`, with `n` from 1 to `2 ^ 63`. -/
  | negative (n : Nat)
  /-- Any other number. -/
  | float (isNegative : Bool) (magnitude : Binary64)
deriving DecidableEq

namespace Number

/-- The digits of a decimal with a point or an exponent. -/
def renderDecimal (d : Decimal) : String :=
  let digits := Nat.toDigits 10 d.digits
  let point : Int := digits.length + d.exponent
  let text (cs : List Char) : String := String.ofList cs
  let zeros (n : Int) : String := text (List.replicate n.toNat '0')
  let scale := if 0 < point then s!"e+{point - 1}" else s!"e{point - 1}"
  if 0 ≤ d.exponent ∧ point ≤ 16 then text digits ++ zeros d.exponent ++ ".0"
  else if 0 < point ∧ point ≤ 16 then
    text (digits.take point.toNat) ++ "." ++ text (digits.drop point.toNat)
  else if -5 < point ∧ point ≤ 0 then "0." ++ zeros (-point) ++ text digits
  else if digits.length = 1 then text digits ++ scale
  else text (digits.take 1) ++ "." ++ text (digits.drop 1) ++ scale

/-- The text of a number. -/
def render : Number → String
  | natural n => n.repr
  | negative n => "-" ++ n.repr
  | float isNegative x => (if isNegative then "-" else "") ++ renderDecimal (Decimal.shortest x)

/-- A row of digits cut before the first that would not fit into 64 bits, and how many are left
over. -/
def significand (start : Nat) : List Char → Nat × Nat
  | [] => (start, 0)
  | c :: cs =>
    let next := 10 * start + (c.toNat - '0'.toNat)
    if next < 1 <<< 64 then significand next cs else (start, cs.length + 1)

/-- Takes the digits of a whole number: a zero alone, or digits that start with another one. -/
def whole : TextReader (List Char) := do
  let digits ← TextReader.takeWhile Char.isDigit
  match digits with
  | [] => TextReader.nothing
  | '0' :: _ :: _ => TextReader.nothing
  | _ => return digits

/-- Takes at least one digit. -/
def digits : TextReader (List Char) := do
  let digits ← TextReader.takeWhile Char.isDigit
  if digits.isEmpty then TextReader.nothing else return digits

/-- Takes a point and the digits behind it. -/
def fraction : TextReader (List Char) := do
  TextReader.char '.'
  digits

/-- Takes an exponent. -/
def exponent : TextReader Int := do
  let _ ← TextReader.satisfying fun c => c = 'e' || c = 'E'
  let sign ← TextReader.optional (TextReader.satisfying fun c => c = '+' || c = '-')
  let n := Nat.ofDigitChars 10 (← digits) 0
  return if sign = some '-' then -n else n

/-- The number with these digits in front of and behind the point, scaled by a power of ten. The
digits behind the point are joined to those in front of it that count, whether all of them do or
not. -/
def ofParts? (isNegative : Bool) (before behind : List Char) (scale : Int) : Option Number :=
  let (front, unusedBefore) := significand 0 before
  let (all, unusedBehind) := significand front behind
  let exponent : Int := unusedBefore - (behind.length - unusedBehind) + scale
  (Binary64.ofDecimal? all exponent).map (float isNegative)

/-- The number with these digits and no fraction or exponent. -/
def ofDigits? (isNegative : Bool) (digits : List Char) : Option Number :=
  let n := Nat.ofDigitChars 10 digits 0
  if !isNegative && n < 1 <<< 64 then some (natural n)
  else if isNegative && 0 < n && n ≤ 1 <<< 63 then some (negative n)
  else ofParts? isNegative digits [] 0

/-- Takes a number. -/
def read : TextReader Number := do
  let sign ← TextReader.optional (TextReader.char '-')
  let before ← whole
  let behind ← TextReader.optional fraction
  let scale ← TextReader.optional exponent
  let number? :=
    if behind.isNone && scale.isNone then ofDigits? sign.isSome before
    else ofParts? sign.isSome before (behind.getD []) (scale.getD 0)
  match number? with
  | some number => return number
  | none => TextReader.nothing

end Number
end Json
end TokenGovernance
