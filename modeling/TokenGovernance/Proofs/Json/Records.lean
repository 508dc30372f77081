/-
# Amounts and parameters survive JSON

What is written for an amount or for parameters is read as the same amount and the same parameters,
whatever their size (`written_reads_back`). The written form is one of several that are read:

| value | read | written |
| --- | --- | --- |
| amount up to 63 bits | number; text with a plus and zeros in front | number |
| amount of 64 bits | number; text | text of its digits |
| larger amount | text | text of its digits |
| parameters | object, with any of its members missing; list of values | object with six members |

So a text that is accepted may change when it is read and written, but only the first time.
-/

import TokenGovernance.Json.Records
import TokenGovernance.Proofs.Fields
import TokenGovernance.Proofs.Json.Value

namespace TokenGovernance
namespace Json

variable {depth : Nat}

/-- An amount of up to 63 bits is a number. -/
theorem ofAmount_of_le {a : Amount} (h : a.val ≤ Amount.greatestNumber) :
    ofAmount a = .number (.natural a.val) :=
  if_pos (decide_eq_true h)

/-- A larger amount is the text of its digits. -/
theorem ofAmount_of_lt {a : Amount} (h : Amount.greatestNumber < a.val) :
    ofAmount a = .text a.val.repr :=
  if_neg (by simpa [Amount.isNumber] using h)

/-- An amount is a number or a text, and nested in no way. -/
theorem plain_ofAmount (a : Amount) : (ofAmount a).Plain depth := by
  rcases Nat.lt_or_ge Amount.greatestNumber a.val with h | h
  · rw [ofAmount_of_lt h]
    exact .text _
  · rw [ofAmount_of_le h]
    have hle : a.val ≤ 1 <<< 63 - 1 := h
    exact .number (show a.val < 1 <<< 64 by omega)

/-- A word is a number in range. -/
theorem plain_ofWord (q : Quantity 64) : (ofWord q).Plain depth := .number q.val_lt

/-- A record of parameters is an object of amounts and words. -/
theorem plain_ofParameters (p : Parameters) : (ofParameters p).Plain (depth + 1) := by
  refine .object ?_
  simp only [Parameters.fields, List.forall_mem_cons, plain_ofWord, plain_ofAmount, true_and]
  simp

/-- The values that stand for an amount: its number, if it has one, and texts of its digits. -/
theorem amount?_eq_some_iff {v : Value} {a : Amount} : amount? v = some a ↔
    v = .number (.natural a.val) ∨ ∃ s, v = .text s ∧ Amount.ofText? s = some a := by
  cases v with
  | number n =>
    cases n with
    | natural k =>
      have hk : amount? (.number (.natural k)) = Quantity.ofNat? k := by
        rcases h : (Quantity.ofNat? k : Option Amount) with _ | b <;>
          simp [amount?, amount, h, Except.toOption]
      rw [hk, Quantity.ofNat?_eq_some_iff]
      simp [eq_comm]
    | negative k => simp [amount?, amount, Except.toOption]
    | float => simp [amount?, amount, Except.toOption]
  | text s =>
    have hs : amount? (.text s) = Amount.ofText? s := by
      rcases h : Amount.ofText? s with _ | b <;> simp [amount?, amount, h, Except.toOption]
    simp [hs]
  | null => simp [amount?, amount, Except.toOption]
  | bool => simp [amount?, amount, Except.toOption]
  | array => simp [amount?, amount, Except.toOption]
  | object => simp [amount?, amount, Except.toOption]

/-- A value stands for the amount that it was made of. -/
theorem amount?_ofAmount (a : Amount) : amount? (ofAmount a) = some a := by
  rcases Nat.lt_or_ge Amount.greatestNumber a.val with h | h
  · exact amount?_eq_some_iff.2 (.inr ⟨_, ofAmount_of_lt h, a.ofText?_repr⟩)
  · exact amount?_eq_some_iff.2 (.inl (ofAmount_of_le h))

/-- A value stands for the word that it was made of. -/
theorem word?_ofWord (q : Quantity 64) : word? (ofWord q) = some q := Quantity.ofNat?_val q

/-- A value stands for the parameters that it was made of. -/
theorem parameters?_ofParameters (p : Parameters) : parameters? (ofParameters p) = some p := by
  show Parameters.ofFields? word? amount?
    (fun _ name => member? (p.fields ofWord ofAmount) name) = some p
  refine Parameters.ofFields?_fields word?_ofWord amount?_ofAmount fun place name v h => ?_
  refine lookup_eq_some_of_mem ?_ (List.mem_reverse.2 (List.mem_of_getElem? h))
  rw [List.map_reverse]
  exact List.pairwise_reverse.2 (Parameters.nodup_names.imp Ne.symm)

/-- Digits are not escaped. -/
theorem escape_of_isDigit {c : Char} (h : c.isDigit = true) : escape c = [c] := by
  unfold escape
  split
  case h_8 =>
    refine if_neg (Nat.not_lt.2 ?_)
    have hzero : '0'.toNat ≤ c.toNat := (Char.isDigit_iff_toNat.1 h).1
    exact Nat.le_trans (by decide) hzero
  all_goals simp at h

/-- The text of a number is its digits between quotes. -/
theorem quote_repr (n : Nat) : quote n.repr = "\"" ++ n.repr ++ "\"" := by
  have hdigits (cs : List Char) (h : ∀ c ∈ cs, c.isDigit = true) : cs.flatMap escape = cs := by
    induction cs with
    | nil => rfl
    | cons c cs ih =>
      rw [List.flatMap_cons, escape_of_isDigit (h c List.mem_cons_self),
        ih fun d hd => h d (List.mem_cons_of_mem _ hd)]
      rfl
  rw [quote, Nat.toList_repr, hdigits _ fun c hc => Numeral.isDigit_of_mem_toDigits hc,
    ← Nat.toList_repr, String.ofList_toList]

/-- An amount up to 63 bits is written as a number, and a larger one as the text of its digits. -/
theorem render_ofAmount (a : Amount) : (ofAmount a).render =
    if a.val ≤ Amount.greatestNumber then a.val.repr else "\"" ++ a.val.repr ++ "\"" := by
  rcases Nat.lt_or_ge Amount.greatestNumber a.val with h | h
  · rw [ofAmount_of_lt h, if_neg (Nat.not_le.2 h)]
    exact quote_repr a.val
  · rw [ofAmount_of_le h, if_pos h]
    rfl

/-- The amount that a text is read as. -/
def amountOf? (text : String) : Option Amount := (parse? text).bind amount?

/-- The parameters that a text is read as. -/
def parametersOf? (text : String) : Option Parameters := (parse? text).bind parameters?

/-- **Amounts and parameters of every size survive JSON.** An amount is written as a number up to
63 bits and as the text of its digits beyond, and what is written for an amount or for parameters is
read as them. So a text in any form that is accepted may be replaced by what is written for what it
was read as. -/
theorem written_reads_back :
    (∀ a : Amount,
      (ofAmount a).render =
        (if a.val ≤ Amount.greatestNumber then a.val.repr else "\"" ++ a.val.repr ++ "\"") ∧
      amountOf? (ofAmount a).render = some a) ∧
    (∀ p : Parameters, parametersOf? (ofParameters p).render = some p) ∧
    (∀ text a, amountOf? text = some a → amountOf? (ofAmount a).render = amountOf? text) ∧
    ∀ text p, parametersOf? text = some p →
      parametersOf? (ofParameters p).render = parametersOf? text := by
  have hamount (a : Amount) : amountOf? (ofAmount a).render = some a := by
    rw [amountOf?, (plain_ofAmount a).parse?_render]
    exact amount?_ofAmount a
  have hparameters (p : Parameters) : parametersOf? (ofParameters p).render = some p := by
    rw [parametersOf?, (plain_ofParameters p).parse?_render]
    exact parameters?_ofParameters p
  refine ⟨fun a => ⟨render_ofAmount a, hamount a⟩, hparameters, ?_, ?_⟩
  · intro text a h
    rw [hamount, h]
  · intro text p h
    rw [hparameters, h]

/-- A plus and zeros, a number beyond 63 bits, and a list of two values are read, and what is
written for them differs. -/
theorem written_reads_back_of_variants :
    (amountOf? "\"+007\"" = some ⟨7, by decide⟩ ∧
      amountOf? (ofAmount ⟨7, by decide⟩).render = amountOf? "\"+007\"") ∧
    (amountOf? "9223372036854775808" = some ⟨1 <<< 63, by decide⟩ ∧
      amountOf? (ofAmount ⟨1 <<< 63, by decide⟩).render = amountOf? "9223372036854775808") ∧
    (parametersOf? "[1, 2]" =
        some { votingDelay := ⟨1, by decide⟩, votingPeriod := ⟨2, by decide⟩ } ∧
      parametersOf?
          (ofParameters { votingDelay := ⟨1, by decide⟩, votingPeriod := ⟨2, by decide⟩ }).render =
        parametersOf? "[1, 2]") := by
  obtain ⟨-, -, hamount, hparameters⟩ := written_reads_back
  have hplus : amountOf? "\"+007\"" = some ⟨7, by decide⟩ := by decide +kernel
  have hlarge : amountOf? "9223372036854775808" = some ⟨1 <<< 63, by decide⟩ := by decide +kernel
  have hlist : parametersOf? "[1, 2]" =
      some { votingDelay := ⟨1, by decide⟩, votingPeriod := ⟨2, by decide⟩ } := by decide +kernel
  exact ⟨⟨hplus, hamount _ _ hplus⟩, ⟨hlarge, hamount _ _ hlarge⟩, ⟨hlist, hparameters _ _ hlist⟩⟩

end Json
end TokenGovernance
