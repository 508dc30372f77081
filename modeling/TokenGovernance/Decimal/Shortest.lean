/-
# Shortest decimals

The shortest decimal that stands for a floating-point number is the one with the fewest digits
among those that are nearer to it than to any other number, and of these the nearest. The decimals
with `n` digits form a grid, and if any of its points is near enough, so is one of the two points
next to the number; so for 1, 2, … up to 17 digits these two are tried.
-/

import TokenGovernance.Decimal.Binary64

namespace TokenGovernance

/-- The decimal `digits * 10 ^ exponent`. -/
structure Decimal where
  digits : Nat
  exponent : Int
deriving DecidableEq

namespace Decimal

/-- How `c * 10 ^ p` compares with `n * 2 ^ e`. -/
def compareBinary (c : Nat) (p : Int) (n : Nat) (e : Int) : Ordering :=
  compare ((c * Nat.pow 10 p.toNat) <<< (-e).toNat) ((n * Nat.pow 10 (-p).toNat) <<< e.toNat)

/-- Whether `c * 10 ^ p` rounds to `x`. The ends of the interval that does belong to it when the
mantissa is even; below a power of two it is half as wide. -/
def roundsTo (x : Binary64) (c : Nat) (p : Int) : Bool :=
  let m := 4 * x.mantissa
  let low := if x.mantissa = 1 <<< 52 ∧ -1074 < x.exponent then m - 1 else m - 2
  let atLow := compareBinary c p low (x.exponent - 2)
  let atHigh := compareBinary c p (m + 2) (x.exponent - 2)
  if x.mantissa % 2 = 0 then atLow.isGE && atHigh.isLE else atLow.isGT && atHigh.isLT

/-- The number of digits of `x` in front of the decimal point, negative for leading zeros. -/
def magnitude (x : Binary64) : Int :=
  let (a, b) := Binary64.fraction x.mantissa x.exponent
  (Nat.toDigits 10 (a * Nat.pow 10 400 / b)).length - 400

/-- The point of the grid with `n` digits that stands for `x`, if there is one. -/
def onGrid? (x : Binary64) (n : Nat) : Option Decimal :=
  let p := magnitude x - n
  let (a, b) := Binary64.fraction x.mantissa x.exponent
  let below := a * Nat.pow 10 (-p).toNat / (b * Nat.pow 10 p.toNat)
  match roundsTo x below p, roundsTo x (below + 1) p with
  | false, false => none
  | true, false => some ⟨below, p⟩
  | false, true => some ⟨below + 1, p⟩
  | true, true =>
    match compareBinary (2 * below + 1) p (2 * x.mantissa) x.exponent with
    | .gt => some ⟨below, p⟩
    | .lt => some ⟨below + 1, p⟩
    | .eq => some ⟨below + below % 2, p⟩

/-- A decimal without trailing zeros. At most `fuel` zeros are dropped. -/
def trim : (fuel : Nat) → Decimal → Decimal
  | 0, d => d
  | fuel + 1, d =>
    if d.digits % 10 = 0 then trim fuel ⟨d.digits / 10, d.exponent + 1⟩ else d

/-- The shortest decimal that stands for a number. -/
def shortest (x : Binary64) : Decimal :=
  if x.mantissa = 0 then ⟨0, 0⟩
  else trim 17 (((List.range' 1 17).findSome? (onGrid? x)).getD ⟨x.mantissa, x.exponent⟩)

end Decimal
end TokenGovernance
