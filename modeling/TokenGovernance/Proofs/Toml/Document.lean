/-
# Written TOML documents read back

A document of entries, a header and entries below it is read as the table that it was written for
(`parse?_of_lines`), if every key is a bare one, every value a text or a whole number, and no key is
there twice. The parts are read back one inside the other:

| part | reads back | where |
| --- | --- | --- |
| whole number | `takes_scalar` | no other character of a scalar follows |
| text | `takes_text` | no quote follows |
| key | `takes_key` | an equals sign or a bracket follows |
| line | `ReadsLine` | a line break or the end follows |

Digits alone are no date and no time of day, which a scalar is tried for first (`no_moment`).
-/

import TokenGovernance.Proofs.Fields
import TokenGovernance.Proofs.Toml.Text
import TokenGovernance.Toml.Document

namespace TokenGovernance
namespace Toml

open TextReader hiding optional

variable {written rest cs : List Char} {n : Nat}

/-! ## Numbers -/

/-- Digits without underscores between them are taken as they are. -/
theorem digitRow?_eq_some (h : ∀ c ∈ cs, c.isDigit = true) (hne : cs ≠ []) :
    digitRow? Char.isDigit cs = some cs := by
  induction cs with
  | nil => exact absurd rfl hne
  | cons c cs ih =>
    have hc := h c List.mem_cons_self
    have hmore : ∀ d ∈ cs, d.isDigit = true := fun d hd => h d (List.mem_cons_of_mem _ hd)
    cases cs with
    | nil => simp [digitRow?, hc]
    | cons d cs =>
      have hd : d ≠ '_' := by
        rintro rfl
        cases hmore '_' List.mem_cons_self
      have ih := ih hmore (List.cons_ne_nil d cs)
      rw [digitRow?, if_pos hc, ih]
      · rfl
      · simp
      · simp [hd]

/-- Decimal digits have the values that other readers give them. -/
theorem ofDigits?_eq_some (h : ∀ c ∈ cs, c.isDigit = true) :
    ofDigits? 10 cs = some (Nat.ofDigitChars 10 cs 0) := by
  have hfold (cs : List Char) (h : ∀ c ∈ cs, c.isDigit = true) (value : Nat) :
      cs.foldlM (fun n c => (10 * n + ·) <$> hexDigit? c) value =
        some (Nat.ofDigitChars 10 cs value) := by
    induction cs generalizing value with
    | nil => simp
    | cons c cs ih =>
      have hc : hexDigit? c = some (c.toNat - '0'.toNat) := if_pos (h c List.mem_cons_self)
      rw [List.foldlM_cons, hc, Nat.ofDigitChars_cons]
      exact ih (fun d hd => h d (List.mem_cons_of_mem _ hd)) _
  exact hfold cs h 0

/-- A row of digits without a superfluous zero. -/
theorem decimalRow?_toDigits (n : Nat) :
    decimalRow? (Nat.toDigits 10 n) = some (Nat.toDigits 10 n) := by
  have hrow : digitRow? Char.isDigit (Nat.toDigits 10 n) = some (Nat.toDigits 10 n) :=
    digitRow?_eq_some (fun c hc => Numeral.isDigit_of_mem_toDigits hc) Nat.toDigits_ne_nil
  unfold decimalRow?
  rw [hrow]
  simp only [Option.bind_eq_bind, Option.bind_some]
  split
  · rename_i heq
    exact absurd heq (Numeral.toDigits_ne_zero_cons n _ _)
  · rfl

/-- Digits have no sign in front of them. -/
theorem splitSign_toDigits (n : Nat) :
    splitSign (Nat.toDigits 10 n) = (none, Nat.toDigits 10 n) := by
  unfold splitSign
  split
  · rename_i heq
    exact absurd (heq ▸ List.mem_cons_self) (Numeral.not_mem_toDigits (n := n) (c := '+') rfl)
  · rename_i heq
    exact absurd (heq ▸ List.mem_cons_self) (Numeral.not_mem_toDigits (n := n) (c := '-') rfl)
  · rfl

/-- The digits of a number up to 63 bits stand for the number. Its value is put in step by step,
lest the bounds of the number be computed. -/
theorem integer?_toDigits (h : n < 1 <<< 63) : integer? (Nat.toDigits 10 n) = some n := by
  have hvalue : ofDigits? 10 (Nat.toDigits 10 n) = some n := by
    rw [ofDigits?_eq_some fun c hc => Numeral.isDigit_of_mem_toDigits hc,
      Nat.ofDigitChars_ten_toDigits]
  have hwhole : wholeNumber? (n : Int) = some n := by
    unfold wholeNumber?
    exact if_pos ⟨by omega, Int.ofNat_lt.2 h⟩
  unfold integer?
  split
  case h_4 =>
    rw [splitSign_toDigits]
    simp only [decimalRow?_toDigits, Option.bind_eq_bind, Option.bind_some]
    rw [hvalue, Option.bind_some]
    simp only [reduceCtorEq, if_false]
    exact hwhole
  all_goals
    rename_i heq
    exact absurd heq (Numeral.toDigits_ne_zero_cons n _ _)

/-- Without a hyphen there is no date, and without a colon no time of day. -/
theorem no_moment (cs : List Char) (hhyphen : '-' ∉ cs) (hcolon : ':' ∉ cs) :
    isDate cs = false ∧ isTime cs = false ∧ isDateTime cs = false := by
  have hdate (cs : List Char) (h : '-' ∉ cs) : isDate cs = false := by
    unfold isDate
    split
    · simp at h
    · rfl
  refine ⟨hdate cs hhyphen, ?_, ?_⟩
  · unfold isTime afterTime
    split
    · simp at hcolon
    · rfl
  · unfold isDateTime
    split
    · rw [hdate (cs.take 10) fun h => hhyphen (List.mem_of_mem_take h)]
      rfl
    · rfl

/-- **Whole numbers read back**, where the scalar ends. -/
theorem takes_scalar (h : n < 1 <<< 63) (hrest : ∀ c ∈ rest.head?, isScalarChar c = false) :
    Takes scalar (Nat.toDigits 10 n) rest (.integer n) := by
  have hnot {c : Char} (hc : c.isDigit = false) : c ∉ Nat.toDigits 10 n :=
    Numeral.not_mem_toDigits hc
  obtain ⟨hdate, htime, hboth⟩ := no_moment (Nat.toDigits 10 n) (hnot rfl) (hnot rfl)
  have hscalar : ∀ c ∈ Nat.toDigits 10 n, isScalarChar c = true := fun c hc => by
    simp [isScalarChar, Char.isAlphanum, Numeral.isDigit_of_mem_toDigits hc]
  have hvalue : scalarOf? (Nat.toDigits 10 n) = some (.integer n) := by
    have htrue : Nat.toDigits 10 n ≠ ['t', 'r', 'u', 'e'] := fun heq =>
      hnot (c := 't') rfl (heq ▸ List.mem_cons_self)
    have hfalse : Nat.toDigits 10 n ≠ ['f', 'a', 'l', 's', 'e'] := fun heq =>
      hnot (c := 'f') rfl (heq ▸ List.mem_cons_self)
    simp [scalarOf?, htrue, hfalse, hdate, htime, hboth, integer?_toDigits h]
  refine (takes_takeWhile hscalar hrest).bind_last ?_
  simp only [hdate, hvalue]
  exact takes_pure _ _

/-! ## Values -/

/-- A whole number is a value where no other character of a scalar follows: it begins with a digit,
and so not with a quote. -/
theorem takes_simple_integer (h : n < 1 <<< 63)
    (hrest : ∀ c ∈ rest.head?, isScalarChar c = false) :
    Takes simple (Nat.toDigits 10 n) rest (.integer n) := by
  have hscalar := takes_scalar h hrest
  obtain ⟨d, ds, hd, hdigit⟩ := Numeral.exists_toDigits n
  rw [hd] at hscalar ⊢
  refine Takes.peek_bind ?_
  split
  case h_3 => exact hscalar
  all_goals
    rename_i heq
    obtain rfl := Option.some.inj heq
    cases hdigit

/-- A text is a value where no quote follows. -/
theorem takes_simple_text (s : String) (hrest : ∀ c ∈ rest.head?, c ≠ '\x22' ∧ c ≠ '\x27') :
    Takes simple (quote s.toList) rest (.text s) := by
  have htext := (takes_text s.toList hrest).map (Value.text ∘ String.ofList)
  simp only [Function.comp_apply, String.ofList_toList] at htext
  obtain ⟨c, more, hquote, hc⟩ := exists_quote s.toList
  rw [hquote] at htext ⊢
  refine Takes.peek_bind ?_
  rcases hc with rfl | rfl <;> exact htext

/-- A text or a scalar is a value, however deep values may be nested. -/
theorem takes_value_of_simple {v : Value} (h : Takes simple written rest v) (depth : Nat) :
    Takes (value depth) written rest v := by
  cases depth with
  | zero => exact h
  | succ depth => exact h.orElse_left

/-! ## Lines -/

/-- Whether a name may stand as a key without quotes. -/
def IsBare (name : String) : Prop :=
  name.toList ≠ [] ∧ ∀ c ∈ name.toList, isBareKeyChar c = true

instance (name : String) : Decidable (IsBare name) :=
  decidable_of_iff (name.toList ≠ [] ∧ name.toList.all isBareKeyChar = true)
    (and_congr_right fun _ => List.all_eq_true)

/-- A bare key begins with one of its characters. -/
theorem IsBare.exists_cons {name : String} (h : IsBare name) :
    ∃ c cs, name.toList = c :: cs ∧ isBareKeyChar c = true := by
  obtain ⟨c, cs, hc⟩ := List.exists_cons_of_ne_nil h.1
  exact ⟨c, cs, hc, h.2 c (hc ▸ List.mem_cons_self)⟩

/-- Where a bare key begins, nothing is dropped. -/
theorem IsBare.takes_blanks {name : String} (h : IsBare name) (rest : List Char) :
    Takes blanks [] (name.toList ++ rest) () := by
  obtain ⟨c, cs, hc, hfirst⟩ := h.exists_cons
  rw [hc]
  refine takes_dropWhile_nil (forall_head?_cons.2 ?_)
  simp only [Bool.or_eq_false_iff, decide_eq_false_iff_not]
  constructor <;> (rintro rfl; cases hfirst)

/-- A bare key is taken whole where none of its characters follows. -/
theorem takes_keyPart {name : String} (h : IsBare name)
    (hrest : ∀ c ∈ rest.head?, isBareKeyChar c = false) :
    Takes keyPart name.toList rest name := by
  have hpart : Takes (do
      let cs ← TextReader.takeWhile isBareKeyChar
      if cs.isEmpty then TextReader.nothing else return String.ofList cs)
      name.toList rest name := by
    refine (takes_takeWhile h.2 hrest).bind_last ?_
    rw [if_neg (by simpa using h.1), String.ofList_toList]
    exact takes_pure name rest
  obtain ⟨c, cs, hc, hfirst⟩ := h.exists_cons
  refine Takes.peek_bind ?_
  rw [hc] at hpart ⊢
  split
  case h_3 => exact hpart
  all_goals
    rename_i heq
    obtain rfl := Option.some.inj heq
    cases hfirst

/-- A bare key, behind which blanks may stand. -/
theorem takes_key {name : String} (h : IsBare name) {spaces : List Char}
    (hspaces : ∀ c ∈ spaces, c = ' ') (hrest : ∀ c ∈ rest.head?, c = '=' ∨ c = ']') :
    Takes key (name.toList ++ spaces) rest ([], name) := by
  have hend : ∀ c ∈ (spaces ++ rest).head?, isBareKeyChar c = false := by
    cases spaces with
    | nil =>
      intro c hc
      rcases hrest c hc with rfl | rfl <;> rfl
    | cons c spaces =>
      obtain rfl := hspaces c List.mem_cons_self
      exact forall_head?_cons.2 rfl
  have hspaces : Takes blanks spaces rest () := by
    refine takes_dropWhile (fun c hc => by simp [hspaces c hc]) fun c hc => ?_
    rcases hrest c hc with rfl | rfl <;> rfl
  have hpart : Takes (do blanks; let part ← keyPart; blanks; return part)
      (name.toList ++ spaces) rest name := by
    refine Takes.bind_nil (List.append_assoc .. ▸ h.takes_blanks _) ?_
    exact (takes_keyPart h hend).bind (hspaces.bind_last (takes_pure name rest))
  have hdot : TextReader.char '.' rest = none := char_eq_none fun c hc => by
    rcases hrest c hc with rfl | rfl <;> decide
  have hnone : TakesAll (do TextReader.char '.'; do blanks; let part ← keyPart; blanks; return part)
      rest [] [] := .done (bind_eq_none hdot)
  have hparts := hnone.separated hpart
  rw [List.append_nil] at hparts
  exact hparts.bind_last (takes_pure _ _)

/-- An entry with a bare key. -/
theorem takes_entry {name : String} {reader : TextReader Value} {v : Value} (h : IsBare name)
    (hblank : Takes blanks [' '] (written ++ rest) ()) (hv : Takes reader written rest v) :
    Takes (entry reader) (name.toList ++ [' ', '=', ' '] ++ written) rest ⟨[], name, v⟩ := by
  have hkey : Takes key (name.toList ++ [' ']) ('=' :: ' ' :: (written ++ rest)) ([], name) :=
    takes_key h (by simp) (forall_head?_cons.2 (.inl rfl))
  have hsplit : name.toList ++ [' ', '=', ' '] ++ written =
      (name.toList ++ [' ']) ++ (['='] ++ ([' '] ++ written)) := by simp
  rw [hsplit]
  exact hkey.bind ((takes_char '=' _).bind (hblank.bind (hv.bind_last (takes_pure _ _))))

/-- What may follow a line. -/
def LineEnds (rest : List Char) : Prop := ∀ c ∈ rest.head?, c = '\n'

/-- At the end of a line there are no blanks. -/
theorem LineEnds.takes_blanks (h : LineEnds rest) : Takes blanks [] rest () :=
  takes_dropWhile_nil fun c hc => by
    rw [h c hc]
    rfl

/-- The content of a line up to its end. -/
theorem takes_content {reader : TextReader Line} {l : Line} (h : Takes reader written rest l)
    (hrest : LineEnds rest) :
    Takes (do let content ← reader; blanks; let _ ← TextReader.optional comment; return content)
      written rest l := by
  have hcomment : comment rest = none := bind_eq_none (char_eq_none fun c hc => by
    rw [hrest c hc]
    decide)
  exact h.bind_last
    (hrest.takes_blanks.bind_nil ((takes_optional_none hcomment).bind_nil (takes_pure l rest)))

/-- A line is read from its text, where a line break or the end of the document follows. -/
def ReadsLine (written : List Char) (l : Line) : Prop :=
  ∀ rest, LineEnds rest → Takes line written rest l

/-- A line without characters is an empty line. -/
theorem readsLine_empty : ReadsLine [] .empty := by
  intro rest hrest
  refine hrest.takes_blanks.bind_nil (Takes.peek_bind ?_)
  cases rest with
  | nil => exact takes_content (takes_pure Line.empty _) hrest
  | cons c rest =>
    obtain rfl := hrest c rfl
    exact takes_content (takes_pure Line.empty _) hrest

/-- A line with a header of one bare key. -/
theorem readsLine_header {name : String} (h : IsBare name) :
    ReadsLine ('[' :: (name.toList ++ [']'])) (.header ⟨[], name, false⟩) := by
  intro rest hrest
  have hrow : TextReader.char '[' (name.toList ++ (']' :: rest)) = none := by
    obtain ⟨c, cs, hc, hfirst⟩ := h.exists_cons
    rw [hc]
    refine char_eq_none (forall_head?_cons.2 ?_)
    rintro rfl
    cases hfirst
  have hkey : Takes key name.toList (']' :: rest) ([], name) := by
    have hkey : Takes key (name.toList ++ []) (']' :: rest) ([], name) :=
      takes_key h (by simp) (forall_head?_cons.2 (.inr rfl))
    rwa [List.append_nil] at hkey
  have hheader : Takes header ('[' :: (name.toList ++ [']'])) rest ⟨[], name, false⟩ := by
    have hnone : TextReader.char '[' ((name.toList ++ [']']) ++ rest) = none := by simpa using hrow
    exact (takes_char '[' _).bind ((takes_optional_none hnone).bind_nil
      (hkey.bind ((takes_char ']' rest).bind_last (takes_pure _ _))))
  refine Takes.bind_nil (takes_dropWhile_nil (forall_head?_cons.2 rfl)) (Takes.peek_bind ?_)
  exact takes_content (hheader.map Line.header) hrest

/-- A line with an entry. -/
theorem readsLine_entry {name : String} {v : Value} (h : IsBare name)
    (hblank : ∀ rest, Takes blanks [' '] (written ++ rest) ())
    (hv : ∀ rest, LineEnds rest → Takes simple written rest v) :
    ReadsLine (name.toList ++ [' ', '=', ' '] ++ written) (.entry ⟨[], name, v⟩) := by
  intro rest hrest
  have hentry := takes_entry h (hblank rest)
    (takes_value_of_simple (hv rest hrest) depthLimit)
  have hline := takes_content (hentry.map Line.entry) hrest
  have hblanks := h.takes_blanks (([' ', '=', ' '] ++ written) ++ rest)
  rw [← List.append_assoc, ← List.append_assoc] at hblanks
  refine hblanks.bind_nil (Takes.peek_bind ?_)
  obtain ⟨c, cs, hc, hfirst⟩ := h.exists_cons
  rw [hc] at hline ⊢
  split
  case h_6 => exact hline
  case h_2 =>
    rename_i heq
    cases heq
  all_goals
    rename_i heq
    obtain rfl := Option.some.inj heq
    cases hfirst

/-! ## Documents -/

/-- The texts of lines, each behind a line break. -/
def furtherLines (more : List (List Char × Line)) : List Char := more.flatMap fun m => '\n' :: m.1

/-- Behind a line comes a line break or the end. -/
theorem lineEnds_furtherLines (more : List (List Char × Line)) :
    LineEnds (furtherLines more ++ []) := by
  cases more with
  | nil => exact fun c hc => by cases hc
  | cons m more => exact forall_head?_cons.2 rfl

/-- Lines are found one after the other, up to the end. -/
theorem takesAll_lines {more : List (List Char × Line)} (h : ∀ m ∈ more, ReadsLine m.1 m.2) :
    TakesAll (do lineBreak; line) [] (furtherLines more) (more.map Prod.snd) := by
  induction more with
  | nil => exact .done rfl
  | cons m more ih =>
    have hbreak (rest : List Char) : Takes lineBreak ['\n'] rest () :=
      (takes_literal ['\n'] rest).orElse_left
    exact TakesAll.step (List.cons_ne_nil '\n' m.1)
      ((hbreak _).bind (h m List.mem_cons_self _ (lineEnds_furtherLines more)))
      (ih fun d hd => h d (List.mem_cons_of_mem _ hd))

/-- **The lines of a document read back**, one after the other. -/
theorem readAll?_lines {s : String} {first : List Char} {l : Line}
    {more : List (List Char × Line)} (hs : s.toList = first ++ furtherLines more)
    (hmark : ∀ c ∈ s.toList.head?, c ≠ '\ufeff') (hfirst : ReadsLine first l)
    (hmore : ∀ m ∈ more, ReadsLine m.1 m.2) :
    lines.readAll? s = some (l :: more.map Prod.snd) := by
  have hall := (takesAll_lines hmore).separated (hfirst _ (lineEnds_furtherLines more))
  rw [← hs] at hall
  refine Takes.readAll? (Takes.bind_nil (takes_optional_none (char_eq_none ?_)) hall)
  rwa [List.append_nil]

/-- Entries at the beginning of a document stand in front of its first header. -/
theorem sections_entries (entries : List Entry) (rest : List Line) :
    sections (entries.map Line.entry ++ rest) =
      (entries ++ (sections rest).1, (sections rest).2) := by
  induction entries with
  | nil => rfl
  | cons e entries ih => rw [List.map_cons, List.cons_append, sections, ih]; rfl

/-- Entries with keys of one part. -/
def entriesOf (t : Table) : List Entry := t.map fun e => ⟨[], e.1, e.2⟩

/-- Entries make up the table that they were taken from, where no key is there twice. -/
theorem Table.addAll_entriesOf (fields t : Table) (hnodup : ((t ++ fields).map Prod.fst).Nodup) :
    Table.addAll (entriesOf fields) t = some (t ++ fields) := by
  induction fields generalizing t with
  | nil => simp [addAll, entriesOf]
  | cons e fields ih =>
    have hnone : t.get? e.1 = none := lookup_eq_none_of_nodup hnodup
    have hadd : t.addDotted e.1 e.2 [] true = some (t ++ [e]) := by
      simp [addDotted, hnone]
    have hsplit : t ++ e :: fields = (t ++ [e]) ++ fields := by simp
    rw [hsplit] at hnodup ⊢
    rw [← ih _ hnodup]
    simp only [addAll, entriesOf, List.map_cons, List.foldlM_cons, hadd]
    rfl

/-- A new key is put at the end of a table. -/
theorem Table.put_of_get?_eq_none {t : Table} {key : String} (h : t.get? key = none) (v : Value) :
    t.put key v = t ++ [(key, v)] := by
  induction t with
  | nil => rfl
  | cons e t ih =>
    have hall := List.lookup_eq_none_iff.1 h
    have hne : e.1 ≠ key := Ne.symm (bne_iff_ne.1 (hall e List.mem_cons_self))
    have hmore : Table.get? t key = none :=
      List.lookup_eq_none_iff.2 fun p hp => hall p (List.mem_cons_of_mem _ hp)
    rw [put, if_neg hne, ih hmore, List.cons_append]

/-- **Entries, and a table with entries of its own**: what the lines of a document stand for. -/
theorem parse?_of_lines {s key : String} (top fields : Table)
    (hlines : lines.readAll? s = some ((entriesOf top).map Line.entry ++
      (.empty :: .header ⟨[], key, false⟩ :: ((entriesOf fields).map Line.entry ++ [.empty]))))
    (htop : ((top ++ [(key, Value.table .header fields)]).map Prod.fst).Nodup)
    (hfields : (fields.map Prod.fst).Nodup) :
    parse? s = some (top ++ [(key, .table .header fields)]) := by
  have hnone : Table.get? top key = none := lookup_eq_none_of_nodup htop
  rw [List.map_append] at htop
  have htop : Table.addAll (entriesOf top) [] = some top :=
    Table.addAll_entriesOf top [] (List.nodup_append.1 htop).1
  have hfields : Table.addAll (entriesOf fields) [] = some fields :=
    Table.addAll_entriesOf fields [] hfields
  have hsection : addSection top ⟨[], key, false⟩ (entriesOf fields) =
      some (top ++ [(key, .table .header fields)]) := by
    simp [addSection, Table.below, Table.addTable, hnone, hfields, Table.put_of_get?_eq_none hnone]
  simp [parse?, hlines, sections_entries, sections, htop, hsection]

end Toml
end TokenGovernance
