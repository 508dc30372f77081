/-
# What readers take

`TextReader.Takes r written rest a` says that from `written`, with `rest` behind it, the reader `r`
takes just `written` and finds `a`. What follows is a part of the statement, for many a reader must
look at it to know where to stop: a row of digits ends where a character is none. Such a condition
is put to `rest.head?` alone, so it holds at the end of a text, too.

Readers run one after the other take their texts one after the other (`Takes.bind`), and a reader
that is run as often as it finds something takes a row of texts (`TakesAll`), of which none may be
empty.
-/

import TokenGovernance.Text.Numeral
import TokenGovernance.Text.Reader

namespace TokenGovernance
namespace TextReader

variable {α β : Type} {r r' : TextReader α} {f : α → TextReader β}
variable {written more rest : List Char} {a : α} {b : β} {as : List α} {p : Char → Bool}

/-- From `written`, and `rest` behind it, `r` takes just `written` and finds `a`. -/
def Takes (r : TextReader α) (written rest : List Char) (a : α) : Prop :=
  r (written ++ rest) = some (a, rest)

/-- An answer takes nothing. -/
theorem takes_pure (a : α) (rest : List Char) : Takes (pure a) [] rest a := rfl

/-- **Readers in a row take their texts in a row.** -/
theorem Takes.bind (h : Takes r written (more ++ rest) a) (hf : Takes (f a) more rest b) :
    Takes (r >>= f) (written ++ more) rest b := by
  show (r ((written ++ more) ++ rest)).bind (fun x => f x.1 x.2) = some (b, rest)
  rw [List.append_assoc, show r (written ++ (more ++ rest)) = some (a, more ++ rest) from h]
  exact hf

/-- A reader that takes nothing, and then another one. -/
theorem Takes.bind_nil (h : Takes r [] (written ++ rest) a) (hf : Takes (f a) written rest b) :
    Takes (r >>= f) written rest b :=
  h.bind hf

/-- A reader, and then one that takes nothing. -/
theorem Takes.bind_last (h : Takes r written rest a) (hf : Takes (f a) [] rest b) :
    Takes (r >>= f) written rest b := by
  have h' : Takes (r >>= f) (written ++ []) rest b := h.bind hf
  rwa [List.append_nil] at h'

/-- A reader that finds nothing ends a row of readers. -/
theorem bind_eq_none {cs : List Char} (h : r cs = none) : (r >>= f) cs = none := by
  show (r cs).bind (fun x => f x.1 x.2) = none
  rw [h]
  rfl

/-- Naming what is found takes no more. -/
theorem Takes.map (g : α → β) (h : Takes r written rest a) :
    Takes (g <$> r) written rest (g a) := by
  show (r (written ++ rest)).bind (fun x => some (g x.1, x.2)) = some (g a, rest)
  rw [show r (written ++ rest) = some (a, rest) from h]
  rfl

/-- The first of two alternatives is taken where it finds something. -/
theorem Takes.orElse_left (h : Takes r written rest a) : Takes (r <|> r') written rest a := by
  show (r (written ++ rest) <|> r' (written ++ rest)) = some (a, rest)
  rw [show r (written ++ rest) = some (a, rest) from h]
  rfl

/-- The second of two alternatives is taken where the first finds nothing. -/
theorem Takes.orElse_right (h : r (written ++ rest) = none) (h' : Takes r' written rest a) :
    Takes (r <|> r') written rest a := by
  show (r (written ++ rest) <|> r' (written ++ rest)) = some (a, rest)
  rw [h]
  exact h'

/-- A value that is there is taken. -/
theorem takes_optional (h : Takes r written rest a) :
    Takes (optional r) written rest (some a) :=
  (h.map some).orElse_left

/-- Where no value is, nothing is taken. -/
theorem takes_optional_none (h : r rest = none) : Takes (optional r) [] rest none := by
  refine Takes.orElse_right ?_ (takes_pure none rest)
  show (r rest).bind (fun x => some (some x.1, x.2)) = none
  rw [h]
  rfl

/-- A reader that first looks at the next character. -/
theorem Takes.peek_bind {f : Option Char → TextReader β}
    (h : Takes (f (written ++ rest).head?) written rest b) :
    Takes (peek >>= f) written rest b :=
  Takes.bind_nil (r := peek) rfl h

/-- A condition on what follows, where the next character is known. -/
theorem forall_head?_cons {q : Char → Prop} {c : Char} :
    (∀ d ∈ (c :: rest).head?, q d) ↔ q c := by
  simp

/-- A character is taken by its reader. -/
theorem takes_char (c : Char) (rest : List Char) : Takes (char c) [c] rest () := by
  show (if c = c then some ((), rest) else none) = some ((), rest)
  rw [if_pos rfl]

/-- A character that is not the next one is not taken. -/
theorem char_eq_none {c : Char} {cs : List Char} (h : ∀ d ∈ cs.head?, d ≠ c) :
    char c cs = none := by
  cases cs with
  | nil => rfl
  | cons d cs => exact if_neg (h d rfl)

/-- A row of characters is taken by its reader, whatever follows. -/
theorem takes_literal (cs rest : List Char) : Takes (literal cs) cs rest () := by
  induction cs with
  | nil => rfl
  | cons c cs ih => exact (takes_char c (cs ++ rest)).bind ih

/-- A row of characters that satisfy `p` ends where one does not. -/
theorem span_append (h : ∀ c ∈ written, p c = true) (hrest : ∀ c ∈ rest.head?, p c = false) :
    (written ++ rest).takeWhile p = written ∧ (written ++ rest).dropWhile p = rest := by
  rw [List.takeWhile_append_of_pos h, List.dropWhile_append_of_pos h]
  cases rest with
  | nil => simp
  | cons c rest => simp [hrest c rfl]

/-- A row of characters that satisfy `p` is taken whole if the next one does not. -/
theorem takes_takeWhile (h : ∀ c ∈ written, p c = true) (hrest : ∀ c ∈ rest.head?, p c = false) :
    Takes (takeWhile p) written rest written := by
  obtain ⟨htake, hdrop⟩ := span_append h hrest
  show some ((written ++ rest).takeWhile p, (written ++ rest).dropWhile p) = _
  rw [htake, hdrop]

/-- A row of characters that satisfy `p` is dropped whole if the next one does not. -/
theorem takes_dropWhile (h : ∀ c ∈ written, p c = true) (hrest : ∀ c ∈ rest.head?, p c = false) :
    Takes (dropWhile p) written rest () := by
  obtain ⟨-, hdrop⟩ := span_append h hrest
  show some ((), (written ++ rest).dropWhile p) = _
  rw [hdrop]

/-- Where the next character does not satisfy `p`, nothing is dropped. -/
theorem takes_dropWhile_nil (hrest : ∀ c ∈ rest.head?, p c = false) :
    Takes (dropWhile p) [] rest () :=
  takes_dropWhile (by simp) hrest

/-! ## As often as something is found -/

/-- Run again and again, `r` takes `written` and finds `as`, and then finds nothing more. No step
takes nothing. -/
inductive TakesAll (r : TextReader α) (rest : List Char) : List Char → List α → Prop
  | done (h : r rest = none) : TakesAll r rest [] []
  | step {written more : List Char} {a : α} {as : List α} (hne : written ≠ [])
      (h : Takes r written (more ++ rest) a) (hmore : TakesAll r rest more as) :
      TakesAll r rest (written ++ more) (a :: as)

/-- A reader that finds nothing is run no further. -/
theorem manyUpTo_of_none {cs : List Char} (h : r cs = none) (fuel : Nat) :
    manyUpTo r fuel cs = some ([], cs) := by
  cases fuel with
  | zero => rfl
  | succ fuel => simp only [manyUpTo, h]

/-- A reader that finds something is run again, with one unit of fuel less. -/
theorem manyUpTo_of_some {cs : List Char} (h : r cs = some (a, rest)) (fuel : Nat) :
    manyUpTo r (fuel + 1) cs = ((a :: ·) <$> manyUpTo r fuel) rest := by
  simp only [manyUpTo, h]

/-- The length of a text is fuel enough, for every step takes a character. -/
theorem TakesAll.manyUpTo (h : TakesAll r rest written as) (fuel : Nat)
    (hfuel : written.length ≤ fuel) : Takes (manyUpTo r fuel) written rest as := by
  induction h generalizing fuel with
  | done h => exact manyUpTo_of_none h fuel
  | @step written more a as hne h _ ih =>
    have hpos : 0 < written.length := List.length_pos_iff.2 hne
    rw [List.length_append] at hfuel
    cases fuel with
    | zero => omega
    | succ fuel =>
      have h : r (written ++ (more ++ rest)) = some (a, more ++ rest) := h
      rw [← List.append_assoc] at h
      exact (manyUpTo_of_some h fuel).trans ((ih fuel (by omega)).map (a :: ·))

/-- **Run as often as it finds something, a reader takes the whole row**, since the text that is
left is fuel enough. -/
theorem TakesAll.many (h : TakesAll r rest written as) : Takes (many r) written rest as :=
  h.manyUpTo (written ++ rest).length (by simp)

/-- **A row of values with separators between them.** -/
theorem TakesAll.separated {separator : TextReader Unit} (h : Takes r written (more ++ rest) a)
    (hmore : TakesAll (do separator; r) rest more as) :
    Takes (separated separator r) (written ++ more) rest (a :: as) :=
  h.bind (hmore.many.bind_last (takes_pure _ _))

/-- What a reader takes up to the end is what the whole text stands for. -/
theorem Takes.readAll? {s : String} (h : Takes r s.toList [] a) : readAll? r s = some a := by
  have hr : r s.toList = some (a, []) := by
    have h' : r (s.toList ++ []) = some (a, []) := h
    rwa [List.append_nil] at h'
  unfold TextReader.readAll?
  rw [hr]

end TextReader

/-! ## Written numbers -/

namespace Numeral

/-- The characters of a written number are digits. -/
theorem isDigit_of_mem_toDigits {n : Nat} {c : Char} (h : c ∈ Nat.toDigits 10 n) :
    c.isDigit = true :=
  Nat.isDigit_of_mem_toDigits (by decide) (by decide) h

/-- The digits of a number begin with a digit. -/
theorem exists_toDigits (n : Nat) :
    ∃ d ds, Nat.toDigits 10 n = d :: ds ∧ d.isDigit = true := by
  obtain ⟨d, ds, hd⟩ := List.exists_cons_of_ne_nil (Nat.toDigits_ne_nil (n := n) (b := 10))
  exact ⟨d, ds, hd, isDigit_of_mem_toDigits (hd ▸ List.mem_cons_self)⟩

/-- Digits are all there is in the digits of a number. -/
theorem not_mem_toDigits {n : Nat} {c : Char} (hc : c.isDigit = false) :
    c ∉ Nat.toDigits 10 n := by
  intro hmem
  rw [isDigit_of_mem_toDigits hmem] at hc
  cases hc

/-- No zero is in front of the digits of a positive number: its first digit is that of its tenth
part, down to a single digit. -/
theorem head?_toDigits_ne_zero (n : Nat) (hn : 0 < n) :
    ∀ c ∈ (Nat.toDigits 10 n).head?, c ≠ '0' := by
  induction n using Nat.strongRecOn with
  | ind n ih =>
    rcases Nat.lt_or_ge n 10 with hlt | hge
    · rw [Nat.toDigits_of_lt_base hlt]
      rintro c hc rfl
      have hzero : n.digitChar = '0' := Option.some.inj hc
      exact absurd (Nat.digitChar_eq_zero.1 hzero) (by omega)
    · rw [Nat.toDigits_of_base_le (by decide) hge, List.head?_append]
      intro c hc
      obtain ⟨d, ds, hd, -⟩ := exists_toDigits (n / 10)
      have ih := ih (n / 10) (by omega) (by omega)
      rw [hd] at hc ih
      exact ih c hc

/-- A zero in front of the digits of a number is the only one. -/
theorem toDigits_ne_zero_cons (n : Nat) (c : Char) (cs : List Char) :
    Nat.toDigits 10 n ≠ '0' :: c :: cs := by
  intro h
  rcases Nat.eq_zero_or_pos n with rfl | hpos
  · simp [Nat.toDigits_zero] at h
  · exact head?_toDigits_ne_zero n hpos '0' (by rw [h]; rfl) rfl

end Numeral
end TokenGovernance
