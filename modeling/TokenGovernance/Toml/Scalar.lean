/-
# TOML numbers, dates and truth values

These are written without quotes, as one row of letters, digits and the characters `+ - _ . :`; only
between a date and a time of day may a blank stand.

| value | written |
| --- | --- |
| whole number | `0`, `+1_000`, `-5`; `0xff`, `0o17`, `0b1` without a sign; 64 bits with a sign |
| other number | `1.5`, `-2e10`, `inf`, `nan` |
| truth value | `true`, `false` |
| date, time | `2024-02-29`, `07:30:00.5`, `2024-02-29T07:30:00-08:00` |

An underscore stands between two digits. A number above the largest floating-point number is none.
-/

import TokenGovernance.Decimal.Binary64
import TokenGovernance.Toml.Text
import TokenGovernance.Toml.Value

namespace TokenGovernance
namespace Toml

/-- The digits of a row of digits with underscores between them. -/
def digitRow? (isDigit : Char → Bool) : List Char → Option (List Char)
  | [] => none
  | [c] => if isDigit c then some [c] else none
  | c :: '_' :: cs => if isDigit c then (c :: ·) <$> digitRow? isDigit cs else none
  | c :: cs => if isDigit c then (c :: ·) <$> digitRow? isDigit cs else none

/-- A sign, if one is in front, and the rest. -/
def splitSign : List Char → Option Char × List Char
  | '+' :: cs => (some '+', cs)
  | '-' :: cs => (some '-', cs)
  | cs => (none, cs)

/-- The digits of a decimal row that does not start with a superfluous zero. -/
def decimalRow? (cs : List Char) : Option (List Char) := do
  let digits ← digitRow? Char.isDigit cs
  match digits with
  | '0' :: _ :: _ => none
  | _ => return digits

/-- The number that digits of some base stand for. -/
def ofDigits? (base : Nat) (digits : List Char) : Option Nat :=
  digits.foldlM (fun n c => (base * n + ·) <$> hexDigit? c) 0

/-- A whole number that fits into 64 bits with a sign. -/
def wholeNumber? (n : Int) : Option Int :=
  if -(1 <<< 63 : Nat) ≤ n ∧ n < (1 <<< 63 : Nat) then some n else none

/-- Whether a character is a digit of a base. -/
def isDigitOf (base : Nat) (c : Char) : Bool :=
  match hexDigit? c with
  | some d => d < base
  | none => false

/-- The whole number that a row of characters stands for. -/
def integer? (cs : List Char) : Option Int := do
  let based (base : Nat) (cs : List Char) : Option Int := do
    let n ← ofDigits? base (← digitRow? (isDigitOf base) cs)
    wholeNumber? n
  match cs with
  | '0' :: 'x' :: cs => based 16 cs
  | '0' :: 'o' :: cs => based 8 cs
  | '0' :: 'b' :: cs => based 2 cs
  | cs =>
    let (sign, cs) := splitSign cs
    let n ← ofDigits? 10 (← decimalRow? cs)
    wholeNumber? (if sign = some '-' then -n else n)

/-- Whether `digits * 10 ^ exponent` is above the largest floating-point number. -/
def overflows (digits : Nat) (exponent : Int) : Bool :=
  let magnitude : Int := (Nat.toDigits 10 digits).length + exponent
  if digits = 0 ∨ magnitude < 300 then false
  else if 320 < magnitude then true
  else
    let num := digits * Nat.pow 10 exponent.toNat
    (Binary64.nearest? num (Nat.pow 10 (-exponent).toNat)).isNone

/-- The digits of an exponent that follows an `e`. -/
def exponent? (cs : List Char) : Option Int := do
  let (sign, cs) := splitSign cs
  let n ← ofDigits? 10 (← digitRow? Char.isDigit cs)
  return if sign = some '-' then -n else n

/-- Whether a row of characters is a number with a fraction or an exponent, or a special one. -/
def isFloat (cs : List Char) : Bool :=
  let (sign, body) := splitSign cs
  if body = ['i', 'n', 'f'] ∨ body = ['n', 'a', 'n'] then true
  else
    let isMark (c : Char) : Bool := c = 'e' || c = 'E'
    let mantissa := body.takeWhile (!isMark ·)
    let front := mantissa.takeWhile (· ≠ '.')
    let checked : Option Bool := do
      let whole ← decimalRow? front
      let fraction ←
        match mantissa.dropWhile (· ≠ '.') with
        | [] => some []
        | _ :: behind => digitRow? Char.isDigit behind
      let exponent ←
        match body.dropWhile (!isMark ·) with
        | [] => if fraction.isEmpty then none else some 0
        | _ :: digits => exponent? digits
      let digits ← ofDigits? 10 (whole ++ fraction)
      return sign = some '-' || !overflows digits (exponent - fraction.length)
    checked.getD false

/-! ## Dates and times -/

/-- The number that exactly so many digits stand for. -/
def fixed? (cs : List Char) : Option Nat := if cs.all Char.isDigit then ofDigits? 10 cs else none

/-- The number of days of a month. -/
def daysOf (year month : Nat) : Nat :=
  let isLeap := year % 4 = 0 ∧ (year % 100 ≠ 0 ∨ year % 400 = 0)
  if month = 2 then if isLeap then 29 else 28
  else if month ∈ [4, 6, 9, 11] then 30
  else 31

/-- Whether ten characters are a date. -/
def isDate : List Char → Bool
  | [y₁, y₂, y₃, y₄, '-', m₁, m₂, '-', d₁, d₂] =>
    match fixed? [y₁, y₂, y₃, y₄], fixed? [m₁, m₂], fixed? [d₁, d₂] with
    | some year, some month, some day =>
      1 ≤ month && month ≤ 12 && 1 ≤ day && day ≤ daysOf year month
    | _, _, _ => false
  | _ => false

/-- Whether two digits each are an hour and a minute. -/
def isHourMinute (h₁ h₂ m₁ m₂ : Char) : Bool :=
  match fixed? [h₁, h₂], fixed? [m₁, m₂] with
  | some hour, some minute => hour ≤ 23 && minute ≤ 59
  | _, _ => false

/-- Whether a row of characters is nothing, or an offset from universal time. -/
def isOffset : List Char → Bool
  | [] => true
  | [c] => c = 'Z' || c = 'z'
  | [sign, h₁, h₂, ':', m₁, m₂] => (sign = '+' || sign = '-') && isHourMinute h₁ h₂ m₁ m₂
  | _ => false

/-- What follows the fraction of a second; a point without digits is no fraction. -/
def afterFraction : List Char → Option (List Char)
  | '.' :: c :: cs => if c.isDigit then some (cs.dropWhile Char.isDigit) else none
  | '.' :: _ => none
  | cs => some cs

/-- What follows a time of day. -/
def afterTime : List Char → Option (List Char)
  | h₁ :: h₂ :: ':' :: m₁ :: m₂ :: ':' :: s₁ :: s₂ :: cs =>
    match fixed? [s₁, s₂] with
    | some second =>
      if isHourMinute h₁ h₂ m₁ m₂ && second ≤ 60 then afterFraction cs else none
    | none => none
  | _ => none

/-- Whether a row of characters is a time of day. -/
def isTime (cs : List Char) : Bool := afterTime cs = some []

/-- Whether a row of characters is a time of day with or without an offset. -/
def isTimeWithOffset (cs : List Char) : Bool :=
  match afterTime cs with
  | some rest => isOffset rest
  | none => false

/-- Whether a row of characters is a date and a time of day. -/
def isDateTime (cs : List Char) : Bool :=
  match cs.drop 10 with
  | c :: time => isDate (cs.take 10) && (c = 'T' || c = 't') && isTimeWithOffset time
  | [] => false

/-! ## Scalars -/

/-- Whether a character may stand in a scalar. -/
def isScalarChar (c : Char) : Bool := c.isAlphanum || ['+', '-', '_', '.', ':'].contains c

/-- The value of a row of characters without blanks. -/
def scalarOf? (cs : List Char) : Option Value :=
  if cs = ['t', 'r', 'u', 'e'] then some (.boolean true)
  else if cs = ['f', 'a', 'l', 's', 'e'] then some (.boolean false)
  else if isDate cs || isTime cs || isDateTime cs then some (.moment cs)
  else
    match integer? cs with
    | some n => some (.integer n)
    | none => if isFloat cs then some (.float cs) else none

/-- Takes the time of day that follows a date after a blank. -/
def timeAfterBlank : TextReader (List Char) := do
  TextReader.char ' '
  let time ← TextReader.takeWhile isScalarChar
  if isTimeWithOffset time then return ' ' :: time else TextReader.nothing

/-- Takes a scalar. -/
def scalar : TextReader Value := do
  let cs ← TextReader.takeWhile isScalarChar
  if isDate cs then
    let time ← TextReader.optional timeAfterBlank
    return .moment (cs ++ time.getD [])
  match scalarOf? cs with
  | some v => return v
  | none => TextReader.nothing

end Toml
end TokenGovernance
