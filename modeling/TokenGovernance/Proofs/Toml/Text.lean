/-
# Written TOML texts read back

Whatever the characters of a text, it is read back from the form in which it is written
(`takes_text`). What has to be shown differs from form to form:

| form | why it reads back |
| --- | --- |
| `basic` | no quote is left without a backslash before the one at the end |
| `literal` | it is written only for texts without its quote |
| `basicLines`, `literalLines` | at most two quotes stand together, so a third one ends the text |

Over several lines up to two quotes of the text may stand in front of the three at its end, and the
reader takes them all at once. Before any other quote it only has to see that not two more follow
(`basicLinesRest_quote`, `literalLinesRest_quote`).
-/

import TokenGovernance.Proofs.TextReader
import TokenGovernance.Toml.Text

namespace TokenGovernance
namespace Toml

open TextReader

variable {c q : Char} {cs written rest : List Char} {run : Nat}

/-! ## Characters -/

/-- What needs no number stands for itself, or is a line break. -/
theorem isPrintable_of_isControl (h : isControl c = false) : isPrintable c = true ∨ c = '\n' := by
  simp only [isControl, Bool.and_eq_false_iff, decide_eq_false_iff_not, Bool.or_eq_false_iff,
    ne_eq, Decidable.not_not] at h
  simp only [isPrintable, Bool.or_eq_true, Bool.and_eq_true, decide_eq_true_eq]
  rcases h with (⟨hlt, hdelete⟩ | rfl) | rfl
  · exact .inl (.inr ⟨by omega, hdelete⟩)
  · exact .inl (.inl rfl)
  · exact .inr rfl

/-- A character that is given by its number has a number of seven bits. -/
theorem toNat_lt_of_isControl (h : isControl c = true) : c.toNat < 0x80 := by
  simp only [isControl, Bool.and_eq_true, Bool.or_eq_true, decide_eq_true_eq] at h
  rcases h.1.1 with hlt | rfl
  · omega
  · decide

/-- A number of seven bits is read back from four digits. There are few enough of them to look at
each. -/
theorem characterOf?_hexWord : ∀ n < 0x80, characterOf? (hexWord n) = some (Char.ofNat n) := by
  decide +kernel

/-- The reader of the rest of a basic text, on one line or over several. -/
def basicReader (lines : Bool) : List Char → Found :=
  if lines then basicLinesRest false else basicRest

/-- A character that stands for itself. -/
theorem basicReader_cons (lines : Bool) (hquote : c ≠ '\x22') (hbackslash : c ≠ '\x5c')
    (hreturn : c ≠ '\r') (hprintable : isPrintable c = true ∨ lines ∧ c = '\n')
    (h : basicReader lines written = some (cs, rest)) :
    basicReader lines (c :: written) = some (c :: cs, rest) := by
  cases lines with
  | false =>
    have h : basicRest written = some (cs, rest) := h
    have hprintable : isPrintable c = true := by simpa using hprintable
    show basicRest (c :: written) = _
    simp [basicRest, hbackslash, hprintable, h, push]
  | true =>
    have h : basicLinesRest false written = some (cs, rest) := h
    have hprintable : isPrintable c = true ∨ c = '\n' := by simpa using hprintable
    show basicLinesRest false (c :: written) = _
    simp [basicLinesRest, hquote, hbackslash, hprintable, hreturn, h, push]

/-- A character that is given by its number. -/
theorem basicReader_number (lines : Bool) (hcontrol : isControl c = true)
    (h : basicReader lines written = some (cs, rest)) :
    basicReader lines ('\x5c' :: 'u' :: hexWord c.toNat ++ written) = some (c :: cs, rest) := by
  have hword := characterOf?_hexWord c.toNat (toNat_lt_of_isControl hcontrol)
  rw [Char.ofNat_toNat] at hword
  unfold hexWord at hword ⊢
  cases lines <;> simp_all [basicReader, basicRest, basicLinesRest, push]

/-- A character that is given by a letter. -/
theorem basicReader_letter (lines : Bool) {letter : Char} (hletter : unescape? letter = some c)
    (h : basicReader lines written = some (cs, rest)) :
    basicReader lines ('\x5c' :: letter :: written) = some (c :: cs, rest) := by
  unfold unescape? at hletter
  split at hletter <;> cases hletter <;> cases lines <;>
    simp_all [basicReader, basicRest, basicLinesRest, endsLine, unescape?, push]

/-- The characters that stand for a character, in front of those of a text. -/
theorem basicReader_escape (lines : Bool) (hquote : c ≠ '\x22')
    (h : basicReader lines written = some (cs, rest)) :
    basicReader lines (escape lines c ++ written) = some (c :: cs, rest) := by
  unfold escape
  split
  case h_7 =>
    rename_i hline _ hreturn hbackslash
    split
    · rename_i hcontrol
      exact basicReader_number lines hcontrol h
    · rename_i hcontrol
      have hprintable : isPrintable c = true :=
        (isPrintable_of_isControl (by simpa using hcontrol)).resolve_right hline
      exact basicReader_cons lines hquote hbackslash hreturn (.inl hprintable) h
  case h_3 =>
    cases lines with
    | false => exact basicReader_letter _ rfl h
    | true => exact basicReader_cons true (by decide) (by decide) (by decide) (.inr ⟨rfl, rfl⟩) h
  all_goals exact basicReader_letter _ rfl h

/-- What stands for a character other than a quote begins neither with a quote nor with a line
break, unless it is one. -/
theorem exists_escape (lines : Bool) (hquote : c ≠ '\x22') :
    ∃ d ds, escape lines c = d :: ds ∧ d ≠ '\x22' ∧ d ≠ '\r' ∧ (d = '\n' → c = '\n') := by
  unfold escape
  split
  case h_7 =>
    rename_i hline _ hreturn _
    split
    · exact ⟨'\x5c', _, rfl, by decide, by decide, fun h => absurd h (by decide)⟩
    · exact ⟨c, [], rfl, hquote, hreturn, id⟩
  case h_3 =>
    cases lines with
    | false => exact ⟨'\x5c', _, rfl, by decide, by decide, fun _ => rfl⟩
    | true => exact ⟨'\n', _, rfl, by decide, by decide, fun _ => rfl⟩
  all_goals exact ⟨'\x5c', _, rfl, by decide, by decide, fun h => absurd h (by decide)⟩

/-! ## Quotes -/

/-- Whether two quotes are in front. -/
def IsPair (q : Char) (cs : List Char) : Prop := ∃ rest, cs = q :: q :: rest

/-- Two quotes are not in front of anything that begins with another character. -/
theorem not_isPair_cons {d : Char} (h : d ≠ q) (cs : List Char) : ¬IsPair q (d :: cs) := by
  rintro ⟨rest, heq⟩
  exact h (List.cons.inj heq).1

/-- The quote at the end of a text makes no pair with what follows. -/
theorem not_isPair_end (hrest : ∀ c ∈ rest.head?, c ≠ q) : ¬IsPair q (q :: rest) := by
  rintro ⟨more, heq⟩
  rw [(List.cons.inj heq).2] at hrest
  exact hrest q rfl rfl

/-- The three quotes at the end. -/
theorem basicLinesRest_end (hrest : ∀ c ∈ rest.head?, c ≠ '\x22') :
    basicLinesRest false ('\x22' :: '\x22' :: '\x22' :: rest) = some ([], rest) ∧
      basicLinesRest false ('\x22' :: '\x22' :: '\x22' :: '\x22' :: rest) =
        some (['\x22'], rest) := by
  cases rest with
  | nil => exact ⟨rfl, rfl⟩
  | cons d rest =>
    have hd : d ≠ '\x22' := hrest d rfl
    constructor <;> rw [basicLinesRest] <;> simp [hd]

/-- A quote of the text, where not two more follow. -/
theorem basicLinesRest_quote (hpair : ¬IsPair '\x22' written)
    (h : basicLinesRest false written = some (cs, rest)) :
    basicLinesRest false ('\x22' :: written) = some ('\x22' :: cs, rest) := by
  have hpair (ys : List Char) : written ≠ '\x22' :: '\x22' :: ys := fun heq => hpair ⟨ys, heq⟩
  rw [basicLinesRest]
  · simp [h, push, isPrintable]
  all_goals simp_all

/-- A quote behind a backslash is a quote. -/
theorem unescape?_quote : unescape? '\x22' = some '\x22' := rfl

/-- Any character but a quote ends a row of quotes. -/
theorem escapeAll_cons (lines : Bool) (h : c ≠ '\x22') :
    escapeAll lines run (c :: cs) = escape lines c ++ escapeAll lines 0 cs := by
  simp [escapeAll, h]

/-- A quote that may stay as it is. -/
theorem escapeAll_quote_of_lt (h : run < 2) :
    escapeAll true run ('\x22' :: cs) = '\x22' :: escapeAll true (run + 1) cs := by
  simp [escapeAll, h]

/-- A quote that may not. -/
theorem escapeAll_quote_of_le (h : 2 ≤ run) :
    escapeAll true run ('\x22' :: cs) = '\x5c' :: '\x22' :: escapeAll true 0 cs := by
  simp [escapeAll, Nat.not_lt.2 h]

/-- On one line every quote is given with a backslash. -/
theorem escapeAll_quote :
    escapeAll false run ('\x22' :: cs) = '\x5c' :: '\x22' :: escapeAll false 0 cs := by
  simp [escapeAll]

/-- After two quotes, another one is in front of what is left of a text only at its end. -/
theorem eq_nil_of_escapeAll {more : List Char}
    (h : escapeAll true 2 cs ++ '\x22' :: rest = '\x22' :: more) : cs = [] := by
  cases cs with
  | nil => rfl
  | cons c cs =>
    by_cases hc : c = '\x22'
    · subst hc
      rw [escapeAll_quote_of_le (Nat.le_refl 2)] at h
      exact absurd (List.cons.inj h).1 (by decide)
    · obtain ⟨d, ds, hd, hquote, -⟩ := exists_escape true hc
      rw [escapeAll_cons _ hc, hd] at h
      exact absurd (List.cons.inj h).1 hquote

/-- After a quote, two more are in front of what is left of a text only close to its end. -/
theorem eq_of_isPair_escapeAll
    (h : IsPair '\x22' (escapeAll true (run + 1) cs ++ '\x22' :: '\x22' :: '\x22' :: rest)) :
    cs = [] ∨ cs = ['\x22'] ∧ run = 0 := by
  cases cs with
  | nil => exact .inl rfl
  | cons c cs =>
    by_cases hc : c = '\x22'
    · subst hc
      rcases Nat.lt_or_ge (run + 1) 2 with hlt | hge
      · obtain rfl : run = 0 := by omega
        obtain ⟨more, heq⟩ := h
        rw [escapeAll_quote_of_lt hlt] at heq
        rw [eq_nil_of_escapeAll (List.cons.inj heq).2]
        exact .inr ⟨rfl, rfl⟩
      · rw [escapeAll_quote_of_le hge] at h
        exact absurd h (not_isPair_cons (by decide) _)
    · obtain ⟨d, ds, hd, hquote, -⟩ := exists_escape true hc
      rw [escapeAll_cons _ hc, hd] at h
      exact absurd h (not_isPair_cons hquote _)

/-- **Over several lines**, after some quotes in a row. Close to the end of the text the reader
takes all quotes at once, and before any other quote it sees that not two more follow. -/
theorem basicLinesRest_escapeAll (cs : List Char) (run : Nat)
    (hrest : ∀ c ∈ rest.head?, c ≠ '\x22') :
    basicLinesRest false (escapeAll true run cs ++ '\x22' :: '\x22' :: '\x22' :: rest) =
      some (cs, rest) := by
  induction cs generalizing run with
  | nil => exact (basicLinesRest_end hrest).1
  | cons c cs ih =>
    by_cases hc : c = '\x22'
    · subst hc
      rcases Nat.lt_or_ge run 2 with hlt | hge
      · rw [escapeAll_quote_of_lt hlt, List.cons_append]
        by_cases hpair : IsPair '\x22'
          (escapeAll true (run + 1) cs ++ '\x22' :: '\x22' :: '\x22' :: rest)
        · rcases eq_of_isPair_escapeAll hpair with rfl | ⟨rfl, rfl⟩
          · exact (basicLinesRest_end hrest).2
          · rfl
        · exact basicLinesRest_quote hpair (ih (run + 1))
      · rw [escapeAll_quote_of_le hge]
        exact basicReader_letter true unescape?_quote (ih 0)
    · rw [escapeAll_cons _ hc, List.append_assoc]
      exact basicReader_escape true hc (ih 0)

/-- **On one line.** -/
theorem basicRest_escapeAll (cs rest : List Char) :
    basicRest (escapeAll false 0 cs ++ '\x22' :: rest) = some (cs, rest) := by
  induction cs with
  | nil => rfl
  | cons c cs ih =>
    by_cases hc : c = '\x22'
    · subst hc
      rw [escapeAll_quote]
      exact basicReader_letter false unescape?_quote ih
    · rw [escapeAll_cons _ hc, List.append_assoc]
      exact basicReader_escape false hc ih

/-! ## Literal texts -/

/-- The longest row of quotes is at least the one that has begun. -/
theorem le_longestRun (c : Char) (run : Nat) (cs : List Char) : run ≤ longestRun c run cs := by
  induction cs generalizing run with
  | nil => exact Nat.le_refl run
  | cons d cs ih =>
    unfold longestRun
    split
    · exact Nat.le_of_succ_le (ih (run + 1))
    · exact Nat.le_max_left _ _

/-- A quote goes on with the row that has begun. -/
theorem longestRun_quote (c : Char) (run : Nat) (cs : List Char) :
    longestRun c run (c :: cs) = longestRun c (run + 1) cs := by
  rw [longestRun, if_pos rfl]

/-- Another character ends the row, and a new one may begin behind it. -/
theorem longestRun_zero_le (c d : Char) (run : Nat) (cs : List Char) (h : d ≠ c) :
    longestRun c 0 cs ≤ longestRun c run (d :: cs) := by
  rw [longestRun, if_neg h]
  exact Nat.le_max_right _ _

/-- Quotes alone make one row. -/
theorem longestRun_replicate (c : Char) (run n : Nat) :
    longestRun c run (List.replicate n c) = run + n := by
  induction n generalizing run with
  | zero => rfl
  | succ n ih => rw [List.replicate_succ, longestRun_quote, ih, Nat.add_assoc, Nat.add_comm 1]

/-- A row without a quote. -/
theorem ne_of_longestRun {d : Char} (h : longestRun c 0 (d :: cs) = 0) :
    d ≠ c ∧ longestRun c 0 cs = 0 := by
  have hne : d ≠ c := by
    rintro rfl
    rw [longestRun_quote] at h
    exact absurd h (Nat.ne_of_gt (le_longestRun d (0 + 1) cs))
  exact ⟨hne, Nat.le_zero.1 (Nat.le_trans (longestRun_zero_le c d 0 cs hne) (Nat.le_of_eq h))⟩

/-- **On one line**, without the quote. -/
theorem literalRest_append (hquote : longestRun '\x27' 0 cs = 0) (hline : '\n' ∉ cs)
    (hplain : ∀ c ∈ cs, isControl c = false) (rest : List Char) :
    literalRest (cs ++ '\x27' :: rest) = some (cs, rest) := by
  induction cs with
  | nil => rfl
  | cons c cs ih =>
    obtain ⟨hc, hquote⟩ := ne_of_longestRun hquote
    have hprintable : isPrintable c = true :=
      (isPrintable_of_isControl (hplain c List.mem_cons_self)).resolve_right
        fun hc => hline (hc ▸ List.mem_cons_self)
    have ih := ih hquote (fun hmem => hline (List.mem_cons_of_mem _ hmem))
      fun d hd => hplain d (List.mem_cons_of_mem _ hd)
    simp [literalRest, hprintable, ih, push]

/-- The three quotes at the end, and a quote of the text in front of them. -/
theorem literalLinesRest_end (hrest : ∀ c ∈ rest.head?, c ≠ '\x27') :
    literalLinesRest ('\x27' :: '\x27' :: '\x27' :: rest) = some ([], rest) ∧
      literalLinesRest ('\x27' :: '\x27' :: '\x27' :: '\x27' :: rest) = some (['\x27'], rest) := by
  cases rest with
  | nil => exact ⟨rfl, rfl⟩
  | cons d rest =>
    have hd : d ≠ '\x27' := hrest d rfl
    constructor <;> rw [literalLinesRest] <;> simp [hd]

/-- A character other than a quote, or a quote where not two more follow. -/
theorem literalLinesRest_cons (hpair : c = '\x27' → ¬IsPair '\x27' written)
    (hplain : isControl c = false) (h : literalLinesRest written = some (cs, rest)) :
    literalLinesRest (c :: written) = some (c :: cs, rest) := by
  have hprintable := isPrintable_of_isControl hplain
  have hreturn : c ≠ '\r' := by
    rintro rfl
    cases hplain
  have hpair (ys : List Char) (hc : c = '\x27') : written ≠ '\x27' :: '\x27' :: ys :=
    fun heq => hpair hc ⟨ys, heq⟩
  rw [literalLinesRest]
  · simp [h, hprintable, push]
  all_goals simp_all

/-- After a quote, two more are in front of what is left of a text only close to its end. -/
theorem eq_of_isPair_append (hquote : longestRun '\x27' (run + 1) cs ≤ 2)
    (h : IsPair '\x27' (cs ++ '\x27' :: '\x27' :: '\x27' :: rest)) : cs = [] ∨ cs = ['\x27'] := by
  obtain ⟨more, heq⟩ := h
  match cs, hquote, heq with
  | [], _, _ => exact .inl rfl
  | [d], _, heq =>
    obtain rfl : d = '\x27' := (List.cons.inj heq).1
    exact .inr rfl
  | d :: e :: cs, hquote, heq =>
    obtain rfl : d = '\x27' := (List.cons.inj heq).1
    obtain rfl : e = '\x27' := (List.cons.inj (List.cons.inj heq).2).1
    rw [longestRun_quote, longestRun_quote] at hquote
    have := le_longestRun '\x27' (run + 1 + 1 + 1) cs
    omega

/-- **Over several lines**, after some quotes in a row. -/
theorem literalLinesRest_append (cs : List Char) (run : Nat)
    (hquote : longestRun '\x27' run cs ≤ 2) (hplain : ∀ c ∈ cs, isControl c = false)
    (hrest : ∀ c ∈ rest.head?, c ≠ '\x27') :
    literalLinesRest (cs ++ '\x27' :: '\x27' :: '\x27' :: rest) = some (cs, rest) := by
  induction cs generalizing run with
  | nil => exact (literalLinesRest_end hrest).1
  | cons c cs ih =>
    have hc := hplain c List.mem_cons_self
    have hmore : ∀ d ∈ cs, isControl d = false := fun d hd => hplain d (List.mem_cons_of_mem _ hd)
    by_cases hq : c = '\x27'
    · subst hq
      rw [longestRun_quote] at hquote
      by_cases hpair : IsPair '\x27' (cs ++ '\x27' :: '\x27' :: '\x27' :: rest)
      · rcases eq_of_isPair_append hquote hpair with rfl | rfl
        · exact (literalLinesRest_end hrest).2
        · rfl
      · exact literalLinesRest_cons (fun _ => hpair) hc (ih (run + 1) hquote hmore)
    · have hzero := Nat.le_trans (longestRun_zero_le _ c run cs hq) hquote
      exact literalLinesRest_cons (fun h => absurd h hq) hc (ih 0 hzero hmore)

/-! ## Forms -/

/-- A literal text of one line has no character that needs a number, no quote and no line break. -/
theorem formOf_literal (h : formOf cs = .literal) :
    (∀ c ∈ cs, isControl c = false) ∧ longestRun '\x27' 0 cs = 0 ∧ '\n' ∉ cs := by
  simp only [formOf] at h
  split at h
  · cases h
  split at h
  · rename_i hfit
    simpa [and_assoc] using hfit
  · repeat' split at h
    all_goals cases h

/-- A literal text of several lines has no character that needs a number, and no three quotes in a
row. -/
theorem formOf_literalLines (h : formOf cs = .literalLines) :
    (∀ c ∈ cs, isControl c = false) ∧ longestRun '\x27' 0 cs ≤ 2 := by
  simp only [formOf] at h
  split at h
  · cases h
  split at h
  · cases h
  split at h
  · cases h
  split at h
  · rename_i hfit
    simpa using hfit
  · split at h <;> cases h

/-- Where not two more quotes follow, a basic text is written on one line. -/
theorem text_basic (hpair : ¬IsPair '\x22' cs) : text ('\x22' :: cs) = basicRest cs := by
  have hpair (ys : List Char) : cs ≠ '\x22' :: '\x22' :: ys := fun heq => hpair ⟨ys, heq⟩
  unfold text
  split
  · simp_all
  · simp_all
  · rfl

/-- Where not two more quotes follow, a literal text is written on one line. -/
theorem text_literal (hpair : ¬IsPair '\x27' cs) : text ('\x27' :: cs) = literalRest cs := by
  have hpair (ys : List Char) : cs ≠ '\x27' :: '\x27' :: ys := fun heq => hpair ⟨ys, heq⟩
  unfold text
  split
  · simp_all
  · simp_all
  · rfl

/-- What is written for a text begins with a line break only where a text has one. -/
theorem afterLineBreak_opening (h : ∀ c ∈ written.head?, c ≠ '\r' ∧ (c = '\n' → '\n' ∈ cs)) :
    afterLineBreak (opening cs ++ written) = written := by
  unfold opening
  split
  · rfl
  · rename_i hline
    have hline : '\n' ∉ cs := by simpa using hline
    cases written with
    | nil => rfl
    | cons c written =>
      obtain ⟨hreturn, hbreak⟩ := h c rfl
      have hc : c ≠ '\n' := fun hc => hline (hbreak hc)
      unfold afterLineBreak
      split <;> simp_all

/-- On one line no two quotes are in front of a basic text, for those of the text have a
backslash. -/
theorem not_isPair_escapeAll (cs : List Char) (hrest : ∀ c ∈ rest.head?, c ≠ '\x22') :
    ¬IsPair '\x22' (escapeAll false 0 cs ++ '\x22' :: rest) := by
  cases cs with
  | nil => exact not_isPair_end hrest
  | cons c cs =>
    by_cases hc : c = '\x22'
    · subst hc
      rw [escapeAll_quote]
      exact not_isPair_cons (by decide) _
    · obtain ⟨d, ds, hd, hquote, -⟩ := exists_escape false hc
      rw [escapeAll_cons _ hc, hd]
      exact not_isPair_cons hquote _

/-- On one line no two quotes are in front of a literal text, for it has none of its own. -/
theorem not_isPair_append (hquote : longestRun '\x27' 0 cs = 0)
    (hrest : ∀ c ∈ rest.head?, c ≠ '\x27') : ¬IsPair '\x27' (cs ++ '\x27' :: rest) := by
  cases cs with
  | nil => exact not_isPair_end hrest
  | cons c cs => exact not_isPair_cons (ne_of_longestRun hquote).1 _

/-- What is written over several lines does not begin with a line break of its own. -/
theorem head?_escapeAll (cs rest : List Char) :
    ∀ c ∈ (escapeAll true 0 cs ++ '\x22' :: rest).head?, c ≠ '\r' ∧ (c = '\n' → '\n' ∈ cs) := by
  cases cs with
  | nil => exact forall_head?_cons.2 ⟨by decide, fun h => absurd h (by decide)⟩
  | cons c cs =>
    by_cases hc : c = '\x22'
    · subst hc
      exact forall_head?_cons.2 ⟨by decide, fun h => absurd h (by decide)⟩
    · obtain ⟨d, ds, hd, -, hreturn, hline⟩ := exists_escape true hc
      rw [escapeAll_cons _ hc, hd]
      exact forall_head?_cons.2 ⟨hreturn, fun h => hline h ▸ List.mem_cons_self⟩

/-- A literal text of several lines begins with a line break only where the text has one. -/
theorem head?_append (hplain : ∀ c ∈ cs, isControl c = false) (rest : List Char) :
    ∀ c ∈ (cs ++ '\x27' :: rest).head?, c ≠ '\r' ∧ (c = '\n' → '\n' ∈ cs) := by
  cases cs with
  | nil => exact forall_head?_cons.2 ⟨by decide, fun h => absurd h (by decide)⟩
  | cons c cs =>
    have hcontrol := hplain c List.mem_cons_self
    refine forall_head?_cons.2 ⟨?_, fun h => h ▸ List.mem_cons_self⟩
    rintro rfl
    cases hcontrol

/-- **Every text reads back from its written form**, where no quote follows. -/
theorem takes_text (cs : List Char) (hrest : ∀ c ∈ rest.head?, c ≠ '\x22' ∧ c ≠ '\x27') :
    Takes text (quote cs) rest cs := by
  have hdouble : ∀ c ∈ rest.head?, c ≠ '\x22' := fun c hc => (hrest c hc).1
  have hsingle : ∀ c ∈ rest.head?, c ≠ '\x27' := fun c hc => (hrest c hc).2
  unfold Takes quote
  cases hform : formOf cs with
  | basic =>
    have htext := text_basic (not_isPair_escapeAll cs hdouble)
    rw [basicRest_escapeAll] at htext
    simpa using htext
  | literal =>
    obtain ⟨hplain, hquote, hline⟩ := formOf_literal hform
    have htext := text_literal (not_isPair_append hquote hsingle)
    rw [literalRest_append hquote hline hplain] at htext
    simpa using htext
  | basicLines =>
    have hopening := afterLineBreak_opening (head?_escapeAll cs ('\x22' :: '\x22' :: rest))
    have hlines := basicLinesRest_escapeAll cs 0 hdouble
    rw [← hopening] at hlines
    simpa [text] using hlines
  | literalLines =>
    obtain ⟨hplain, hquote⟩ := formOf_literalLines hform
    have hopening := afterLineBreak_opening (head?_append hplain ('\x27' :: '\x27' :: rest))
    have hlines := literalLinesRest_append cs 0 hquote hplain hsingle
    rw [← hopening] at hlines
    simpa [text] using hlines

/-- A written text begins with a quote. -/
theorem exists_quote (cs : List Char) :
    ∃ c more, quote cs = c :: more ∧ (c = '\x22' ∨ c = '\x27') := by
  unfold quote
  cases formOf cs with
  | basic => exact ⟨'\x22', _, rfl, .inl rfl⟩
  | literal => exact ⟨'\x27', _, rfl, .inr rfl⟩
  | basicLines => exact ⟨'\x22', _, rfl, .inl rfl⟩
  | literalLines => exact ⟨'\x27', _, rfl, .inr rfl⟩

end Toml
end TokenGovernance
