/-
# Decimal numerals

Natural numbers are written with the digits `0` to `9`, no separators and no superfluous zero.
Reading is more generous: leading zeros count for nothing, and an unsigned number may carry a plus.
A number that was written is read back (`natural?_repr`).
-/

namespace TokenGovernance
namespace Numeral

/-- The number that a non-empty row of decimal digits stands for. -/
def natural? (cs : List Char) : Option Nat :=
  if !cs.isEmpty && cs.all Char.isDigit then some (Nat.ofDigitChars 10 cs 0) else none

/-- The number that a row of digits stands for, with or without a plus in front. -/
def unsigned? : List Char → Option Nat
  | '+' :: cs => natural? cs
  | cs => natural? cs

/-- **A number is read back from its decimal digits.** -/
theorem natural?_toDigits (n : Nat) : natural? (Nat.toDigits 10 n) = some n := by
  have hd : (Nat.toDigits 10 n).all Char.isDigit = true :=
    List.all_eq_true.2 fun c hc =>
      Nat.isDigit_of_mem_toDigits (Nat.zero_lt_succ 9) (Nat.le_refl 10) hc
  have hne : (Nat.toDigits 10 n).isEmpty = false :=
    List.isEmpty_eq_false_iff.2 Nat.toDigits_ne_nil
  rw [natural?, hd, hne]
  exact congrArg some (Nat.ofDigitChars_toDigits (by decide) (by decide))

/-- **Written numbers read back.** -/
theorem natural?_repr (n : Nat) : natural? n.repr.toList = some n := by
  rw [Nat.toList_repr]
  exact natural?_toDigits n

end Numeral
end TokenGovernance
