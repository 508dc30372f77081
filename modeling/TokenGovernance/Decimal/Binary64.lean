/-
# Floating-point numbers of 64 bits

A finite number that is not negative is a mantissa below `2 ^ 53` times a power of two from
`2 ^ -1074` to `2 ^ 971`. Arithmetic is exact arithmetic on fractions followed by one rounding, to
the nearest number and from the middle to the even mantissa. What rounds beyond the largest number
has no value here.
-/

namespace TokenGovernance

/-- The number `mantissa * 2 ^ exponent`. -/
structure Binary64 where
  mantissa : Nat
  exponent : Int
deriving DecidableEq

namespace Binary64

/-- The numerator and the denominator of `n * 2 ^ e`. -/
def fraction (n : Nat) (e : Int) : Nat × Nat := (n <<< e.toNat, 1 <<< (-e).toNat)

/-- A quotient rounded to the nearest number, from the middle to the even one. -/
def roundDiv (num den : Nat) : Nat :=
  let q := num / den
  let r := num % den
  if 2 * r < den then q
  else if den < 2 * r then q + 1
  else q + q % 2

/-- The number nearest to a fraction. -/
def nearest? (num den : Nat) : Option Binary64 :=
  if num = 0 then some ⟨0, -1074⟩
  else
    let scaled (e : Int) : Nat × Nat := (num <<< (-e).toNat, den <<< e.toNat)
    let guess : Int := num.log2 - den.log2 - 52
    let (a, b) := scaled guess
    let e := max (if a < b <<< 52 then guess - 1 else guess) (-1074)
    let (a, b) := scaled e
    let m := roundDiv a b
    let (m, e) := if m = 1 <<< 53 then (1 <<< 52, e + 1) else (m, e)
    if 971 < e then none else some ⟨m, e⟩

/-- The product of two numbers. -/
def mul? (x y : Binary64) : Option Binary64 :=
  let (a, b) := fraction x.mantissa x.exponent
  let (c, d) := fraction y.mantissa y.exponent
  nearest? (a * c) (b * d)

/-- The quotient of two numbers. -/
def div? (x y : Binary64) : Option Binary64 :=
  let (a, b) := fraction x.mantissa x.exponent
  let (c, d) := fraction y.mantissa y.exponent
  nearest? (a * d) (b * c)

/-- A power of ten. -/
def powerOfTen? (n : Nat) : Option Binary64 := nearest? (Nat.pow 10 n) 1

/-- The number that a row of decimal digits scaled by a power of ten is taken for: the digits and
the power are rounded first, and their product or quotient after that, so that the result may be
a neighbour of the nearest number. Powers beyond `10 ^ 308` are divided by in two steps. -/
def ofDecimal? (digits : Nat) (exponent : Int) : Option Binary64 := do
  let x ← nearest? digits 1
  if x.mantissa = 0 then
    return x
  if 308 < exponent then
    none
  if 0 ≤ exponent then
    return ← x.mul? (← powerOfTen? exponent.toNat)
  if -308 ≤ exponent then
    return ← x.div? (← powerOfTen? (-exponent).toNat)
  let y ← x.div? (← powerOfTen? 308)
  y.div? (← powerOfTen? (min 308 (-(exponent + 308)).toNat))

end Binary64
end TokenGovernance
