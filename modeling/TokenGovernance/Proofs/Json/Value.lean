/-
# Written JSON values read back

A value without floating-point numbers is read back from its text (`Value.Plain.parse?_render`), as
long as it is nested no deeper than readers go. Floating-point numbers are left out: they are shown
by their shortest decimals, and no record of the library has any.

What a value is followed by matters to its reader. A number ends where it cannot go on
(`Number.isEnd`), and blanks are dropped behind every value, so inside a list or an object a value
is read back if it is followed by a comma or a closing bracket, and before its first character
nothing is dropped (`Begins`). The proof goes along the constructors of `Value.Plain`, and the two
kinds of containers share one step (`takes_items`).
-/

import TokenGovernance.Json.Value
import TokenGovernance.Proofs.TextReader

namespace TokenGovernance
namespace Json

open TextReader hiding optional

variable {c : Char} {cs written rest : List Char}

/-! ## Numbers -/

namespace Number

variable {n : Nat}

/-- Whether a number is whole and in range. -/
def IsWhole : Number → Prop
  | natural n => n < 1 <<< 64
  | negative n => 0 < n ∧ n ≤ 1 <<< 63
  | float .. => False

/-- Whether no number goes on with a character. -/
def isEnd (c : Char) : Bool := !c.isDigit && c ≠ '.' && c ≠ 'e' && c ≠ 'E'

/-- Digits are taken whole, where no digit follows and no zero is superfluous. -/
theorem takes_whole (n : Nat) (hrest : ∀ c ∈ rest.head?, isEnd c = true) :
    Takes whole (Nat.toDigits 10 n) rest (Nat.toDigits 10 n) := by
  have hend : ∀ c ∈ rest.head?, c.isDigit = false := by
    intro c hc
    have := hrest c hc
    simp only [isEnd, Bool.and_eq_true, Bool.not_eq_true'] at this
    exact this.1.1.1
  refine (takes_takeWhile (fun c hc => Numeral.isDigit_of_mem_toDigits hc) hend).bind_last ?_
  have hne : Nat.toDigits 10 n ≠ [] := Nat.toDigits_ne_nil
  have hzero := Numeral.toDigits_ne_zero_cons n
  split
  · contradiction
  · rename_i c cs hcs
    exact absurd hcs (hzero c cs)
  · exact takes_pure _ _

/-- Where a number cannot go on, there is no fraction and no exponent. -/
theorem no_fraction_exponent (hrest : ∀ c ∈ rest.head?, isEnd c = true) :
    fraction rest = none ∧ exponent rest = none := by
  cases rest with
  | nil => exact ⟨rfl, rfl⟩
  | cons c rest =>
    have hc := hrest c rfl
    simp only [isEnd, Bool.and_eq_true, decide_eq_true_eq] at hc
    refine ⟨bind_eq_none (char_eq_none (by simpa using hc.1.1.2)), bind_eq_none ?_⟩
    show (if (decide (c = 'e') || decide (c = 'E')) then _ else none) = none
    rw [if_neg (by simp [hc.1.2, hc.2])]

/-- Digits, after a sign or none. -/
theorem takes_read_digits {sign : List Char} {found : Option Unit} {number : Number}
    (hsign : Takes (TextReader.optional (char '-')) sign (Nat.toDigits 10 n ++ rest) found)
    (hnumber : ofDigits? found.isSome (Nat.toDigits 10 n) = some number)
    (hrest : ∀ c ∈ rest.head?, isEnd c = true) :
    Takes read (sign ++ Nat.toDigits 10 n) rest number := by
  obtain ⟨hfraction, hexponent⟩ := no_fraction_exponent hrest
  refine hsign.bind ((takes_whole n hrest).bind_last ?_)
  refine (takes_optional_none hfraction).bind_nil ((takes_optional_none hexponent).bind_nil ?_)
  simp only [Option.isNone_none, Bool.and_self, if_true, hnumber]
  exact takes_pure number rest

/-- Digits without a sign are a natural number, if it has at most 64 bits. -/
theorem ofDigits?_natural (h : n < 1 <<< 64) :
    ofDigits? false (Nat.toDigits 10 n) = some (natural n) := by
  unfold ofDigits?
  rw [Nat.ofDigitChars_toDigits (by decide) (by decide)]
  exact if_pos (by simpa using h)

/-- Digits with a sign are a negative number, if it is not zero and in range. -/
theorem ofDigits?_negative (hpos : 0 < n) (h : n ≤ 1 <<< 63) :
    ofDigits? true (Nat.toDigits 10 n) = some (negative n) := by
  unfold ofDigits?
  rw [Nat.ofDigitChars_toDigits (by decide) (by decide)]
  exact (if_neg (by simp)).trans (if_pos (by simpa [hpos] using h))

/-- **Whole numbers read back.** -/
theorem takes_read {n : Number} (h : n.IsWhole) (hrest : ∀ c ∈ rest.head?, isEnd c = true) :
    Takes read n.render.toList rest n := by
  cases n with
  | natural n =>
    have hnone : char '-' (Nat.toDigits 10 n ++ rest) = none := by
      obtain ⟨d, ds, hd, hdigit⟩ := Numeral.exists_toDigits n
      rw [hd]
      refine char_eq_none (forall_head?_cons.2 ?_)
      rintro rfl
      cases hdigit
    show Takes read n.repr.toList rest _
    rw [Nat.toList_repr]
    exact takes_read_digits (takes_optional_none hnone) (ofDigits?_natural h) hrest
  | negative n =>
    show Takes read ("-" ++ n.repr).toList rest _
    rw [String.toList_append, Nat.toList_repr]
    exact takes_read_digits (takes_optional (takes_char '-' _)) (ofDigits?_negative h.1 h.2) hrest
  | float => exact h.elim

end Number

/-! ## Texts -/

/-- A control character is read back from two hexadecimal digits. There are few enough of them to
look at each. -/
theorem hexWord?_digitChar : ∀ n < 0x20,
    hexWord? '0' '0' (Nat.digitChar (n / 16)) (Nat.digitChar (n % 16)) = some n := by
  decide

/-- A character that stands for itself. -/
theorem unquote?_cons (hquote : c ≠ '\x22') (hbackslash : c ≠ '\x5c') (hprintable : 0x20 ≤ c.toNat)
    (h : unquote? written = some (cs, rest)) : unquote? (c :: written) = some (c :: cs, rest) := by
  rw [unquote?, if_neg (Nat.not_lt.2 hprintable), h]
  · rfl
  · exact hquote
  · exact fun _ _ _ _ _ hc _ => hbackslash hc
  · exact fun _ _ hc _ => hbackslash hc

/-- The characters that stand for a character, in front of those of a text. -/
theorem unquote?_escape (h : unquote? written = some (cs, rest)) :
    unquote? (escape c ++ written) = some (c :: cs, rest) := by
  unfold escape
  split
  case h_8 =>
    rename_i hquote hbackslash _ _ _ _ _
    split
    · rename_i hlt
      have hword := hexWord?_digitChar c.toNat hlt
      have hsmall : c.toNat < 0xD800 := by omega
      simp [unquote?, hword, hsmall, h]
    · rename_i hge
      exact unquote?_cons hquote hbackslash (Nat.not_lt.1 hge) h
  all_goals simp [unquote?, unescape?, h]

/-- A text is written between two quotes, character by character. -/
theorem toList_quote (s : String) :
    (quote s).toList = '\x22' :: (s.toList.flatMap escape ++ ['\x22']) := by
  simp [quote]

/-- **Texts read back**, whatever is behind the quote at their end. -/
theorem takes_quoted (s : String) (rest : List Char) : Takes quoted (quote s).toList rest s := by
  have hunquote (cs : List Char) :
      unquote? (cs.flatMap escape ++ ('\x22' :: rest)) = some (cs, rest) := by
    induction cs with
    | nil => simp [unquote?]
    | cons c cs ih =>
      rw [List.flatMap_cons, List.append_assoc]
      exact unquote?_escape ih
  have hrest : Takes (unquote? : TextReader (List Char)) (s.toList.flatMap escape ++ ['\x22']) rest
      s.toList := by
    show unquote? ((s.toList.flatMap escape ++ ['\x22']) ++ rest) = _
    rw [List.append_assoc]
    exact hunquote s.toList
  rw [toList_quote]
  refine (takes_char '\x22' _).bind ?_
  have h := hrest.map String.ofList
  rwa [String.ofList_toList] at h

/-! ## Lists and objects -/

/-- A row of characters that begins with no blank and no closing bracket. -/
def Begins (cs : List Char) : Prop :=
  ∃ c more, cs = c :: more ∧ c ∉ [' ', '\n', '\t', '\r', ']', '\x7d']

/-- What may follow a value in a list or an object, and at the end. -/
def Closes (cs : List Char) : Prop := ∀ c ∈ cs.head?, c ∈ [',', ']', '\x7d']

/-- What the beginning of a value is does not depend on what follows. -/
theorem Begins.append (h : Begins cs) (rest : List Char) : Begins (cs ++ rest) := by
  obtain ⟨c, more, rfl, hc⟩ := h
  exact ⟨c, more ++ rest, rfl, hc⟩

/-- No blank is dropped in front of a value. -/
theorem Begins.takes_blanks (h : Begins rest) : Takes blanks [] rest () := by
  obtain ⟨c, more, rfl, hc⟩ := h
  refine takes_dropWhile_nil (forall_head?_cons.2 ?_)
  simp only [List.mem_cons, not_or] at hc
  simp [hc.1, hc.2.1, hc.2.2.1, hc.2.2.2.1]

/-- No value begins with a closing bracket. -/
theorem Begins.head?_ne {close : Char} (h : Begins cs) (hclose : close = ']' ∨ close = '\x7d')
    (rest : List Char) : (cs ++ rest).head? ≠ some close := by
  obtain ⟨c, more, rfl, hc⟩ := h
  rintro ⟨⟩
  rcases hclose with rfl | rfl <;> simp at hc

/-- No blank is dropped in front of a comma or a closing bracket. -/
theorem Closes.takes_blanks (h : Closes rest) : Takes blanks [] rest () := by
  refine takes_dropWhile_nil fun c hc => ?_
  have := h c hc
  simp only [List.mem_cons, List.not_mem_nil, or_false] at this
  rcases this with rfl | rfl | rfl <;> rfl

/-- No number goes on with a comma or a closing bracket. -/
theorem Closes.isEnd (h : Closes rest) : ∀ c ∈ rest.head?, Number.isEnd c = true := by
  intro c hc
  have := h c hc
  simp only [List.mem_cons, List.not_mem_nil, or_false] at this
  rcases this with rfl | rfl | rfl <;> rfl

section Items

variable {α : Type} {item : TextReader α} {render : α → String} {close : Char} {as : List α}

/-- Items after the first one, with a comma in front of each. -/
def further (render : α → String) (as : List α) : List Char :=
  as.flatMap fun a => ',' :: (render a).toList

/-- Items with commas between them are the first one and the others with a comma in front of
each. -/
theorem toList_intercalate (render : α → String) (a : α) (as : List α) :
    (",".intercalate ((a :: as).map render)).toList = (render a).toList ++ further render as := by
  rw [String.toList_intercalate]
  induction as generalizing a with
  | nil => simp [further]
  | cons b as ih =>
    have hb := ih b
    simp only [List.map_cons] at hb ⊢
    rw [List.intercalate_cons_cons, hb]
    simp [further]

/-- An item with blanks around it, of which there are none. -/
theorem takes_spaced {a : α} (hbegins : Begins written) (hcloses : Closes rest)
    (hitem : Takes item written rest a) :
    Takes (do blanks; let a ← item; blanks; return a) written rest a :=
  (hbegins.append rest).takes_blanks.bind_nil
    (hitem.bind_last (hcloses.takes_blanks.bind_nil (takes_pure a rest)))

/-- Behind an item comes a comma, or the closing bracket. -/
theorem closes_further (render : α → String) (hclose : close = ']' ∨ close = '\x7d') (as : List α)
    (rest : List Char) : Closes ((further render as) ++ (close :: rest)) := by
  cases as with
  | nil => exact forall_head?_cons.2 (by rcases hclose with rfl | rfl <;> simp)
  | cons a as => exact forall_head?_cons.2 (by simp)

/-- Further items are found one after the other, up to the closing bracket. -/
theorem takesAll_further (hclose : close = ']' ∨ close = '\x7d')
    (hbegins : ∀ a ∈ as, Begins (render a).toList)
    (hitem : ∀ a ∈ as, ∀ rest, Closes rest → Takes item (render a).toList rest a)
    (rest : List Char) :
    TakesAll (do char ','; do blanks; let a ← item; blanks; return a) (close :: rest)
      (further render as) as := by
  induction as with
  | nil =>
    have hcomma : close ≠ ',' := by rcases hclose with rfl | rfl <;> decide
    exact .done (bind_eq_none (char_eq_none (forall_head?_cons.2 hcomma)))
  | cons a as ih =>
    have hcloses := closes_further render hclose as rest
    have hspaced := takes_spaced (hbegins a List.mem_cons_self) hcloses
      (hitem a List.mem_cons_self _ hcloses)
    refine TakesAll.step (List.cons_ne_nil ',' (render a).toList)
      ((takes_char ',' _).bind hspaced) (ih ?_ ?_)
    · exact fun b hb => hbegins b (List.mem_cons_of_mem _ hb)
    · exact fun b hb => hitem b (List.mem_cons_of_mem _ hb)

/-- **Items of a list or an object read back.** -/
theorem takes_items (hclose : close = ']' ∨ close = '\x7d')
    (hbegins : ∀ a ∈ as, Begins (render a).toList)
    (hitem : ∀ a ∈ as, ∀ rest, Closes rest → Takes item (render a).toList rest a)
    (rest : List Char) :
    Takes (items close item) ((",".intercalate (as.map render)).toList ++ [close]) rest as := by
  cases as with
  | nil =>
    have hblanks : Takes blanks [] (close :: rest) () :=
      (closes_further render hclose [] rest).takes_blanks
    refine hblanks.bind_nil (Takes.peek_bind ?_)
    show Takes (if some close = some close then _ else _) [close] rest []
    rw [if_pos rfl]
    exact (takes_char close rest).bind_last (takes_pure _ _)
  | cons a as =>
    have hfirst := hbegins a List.mem_cons_self
    have hcloses := closes_further render hclose as rest
    have hspaced := takes_spaced hfirst hcloses (hitem a List.mem_cons_self _ hcloses)
    have hfurther := takesAll_further hclose (fun b hb => hbegins b (List.mem_cons_of_mem _ hb))
      (fun b hb => hitem b (List.mem_cons_of_mem _ hb)) rest
    rw [toList_intercalate]
    refine Takes.bind_nil (((hfirst.append _).append _).append rest).takes_blanks
      (Takes.peek_bind ?_)
    rw [if_neg (by simpa only [List.append_assoc] using hfirst.head?_ne hclose _)]
    exact (hfurther.separated hspaced).bind ((takes_char close rest).bind_last (takes_pure _ _))

end Items

/-! ## Values -/

/-- A value without floating-point numbers that is nested at most `depth` deep. -/
inductive Value.Plain : (depth : Nat) → Value → Prop
  | null {depth : Nat} : Plain depth .null
  | bool {depth : Nat} (b : Bool) : Plain depth (.bool b)
  | number {depth : Nat} {n : Number} (h : n.IsWhole) : Plain depth (.number n)
  | text {depth : Nat} (s : String) : Plain depth (.text s)
  | array {depth : Nat} {items : List Value} (h : ∀ v ∈ items, Plain depth v) :
      Plain (depth + 1) (.array items)
  | object {depth : Nat} {members : List (String × Value)} (h : ∀ m ∈ members, Plain depth m.2) :
      Plain (depth + 1) (.object members)

/-- The items of a list are written one by one. -/
theorem renderItems_eq_map (items : List Value) : renderItems items = items.map Value.render := by
  induction items with
  | nil => rfl
  | cons v items ih => rw [renderItems, ih, List.map_cons]

/-- The members of an object are written one by one. -/
theorem renderMembers_eq_map (members : List (String × Value)) :
    renderMembers members = members.map renderMember := by
  induction members with
  | nil => rfl
  | cons m members ih => rw [renderMembers, ih, List.map_cons]

/-- A whole number begins with a digit or a minus. -/
theorem Number.exists_render {n : Number} (h : n.IsWhole) :
    ∃ c cs, n.render.toList = c :: cs ∧ (c.isDigit = true ∨ c = '-') := by
  cases n with
  | natural n =>
    obtain ⟨d, ds, hd, hdigit⟩ := Numeral.exists_toDigits n
    exact ⟨d, ds, Nat.toList_repr.trans hd, .inl hdigit⟩
  | negative n => exact ⟨'-', n.repr.toList, by simp [render], .inr rfl⟩
  | float => exact h.elim

/-- A member begins with the quote of its name. -/
theorem begins_renderMember (m : String × Value) : Begins (renderMember m).toList := by
  have h : Begins (quote m.1).toList := ⟨_, _, toList_quote m.1, by decide⟩
  rw [renderMember, String.append_assoc, String.toList_append]
  exact h.append _

namespace Value.Plain

variable {depth : Nat} {v : Value}

/-- Every value begins with a character that is neither a blank nor a closing bracket. -/
theorem begins_render (h : Plain depth v) : Begins v.render.toList := by
  cases h with
  | null => exact ⟨'n', _, rfl, by decide⟩
  | bool b => cases b <;> exact ⟨_, _, rfl, by decide⟩
  | number h =>
    obtain ⟨c, cs, hc, hdigit⟩ := Number.exists_render h
    refine ⟨c, cs, hc, ?_⟩
    rintro hmem
    simp only [List.mem_cons, List.not_mem_nil, or_false] at hmem
    rcases hmem with rfl | rfl | rfl | rfl | rfl | rfl <;> simp at hdigit
  | text s => exact ⟨_, _, toList_quote s, by decide⟩
  | array h => exact ⟨'[', _, by simp [render]; rfl, by decide⟩
  | object h => exact ⟨'\x7b', _, by simp [render]; rfl, by decide⟩

end Value.Plain

/-- Numbers are what is read where no other scalar begins. -/
theorem takes_scalar_number {n : Number} (h : n.IsWhole)
    (hrest : ∀ c ∈ rest.head?, Number.isEnd c = true) :
    Takes scalar n.render.toList rest (.number n) := by
  have hread := (Number.takes_read h hrest).map Value.number
  obtain ⟨c, cs, hc, hdigit⟩ := Number.exists_render h
  rw [hc] at hread ⊢
  refine Takes.peek_bind ?_
  split
  case h_5 => exact hread
  all_goals
    rename_i heq
    obtain rfl := Option.some.inj heq
    simp at hdigit

/-- A scalar is a value, however deep values may be nested. -/
theorem takes_value_of_scalar {v : Value} (h : Takes scalar written rest v) (depth : Nat) :
    Takes (value depth) written rest v := by
  cases depth with
  | zero => exact h
  | succ depth => exact h.orElse_left

/-- A member of an object, if its value reads back. -/
theorem takes_member {m : String × Value} {reader : TextReader Value}
    (hbegins : Begins m.2.render.toList) (h : Takes reader m.2.render.toList rest m.2) :
    Takes (member reader) (renderMember m).toList rest m := by
  have hcolon : ∀ cs : List Char, Takes blanks [] (':' :: cs) () := fun cs =>
    takes_dropWhile_nil (forall_head?_cons.2 (by decide))
  have htext : (renderMember m).toList =
      (quote m.1).toList ++ ([':'] ++ m.2.render.toList) := by
    rw [renderMember, String.append_assoc, String.toList_append, String.toList_append]
    rfl
  rw [htext]
  refine (takes_quoted m.1 _).bind ((hcolon _).bind_nil ((takes_char ':' _).bind ?_))
  exact (hbegins.append rest).takes_blanks.bind_nil (h.bind_last (takes_pure _ _))

namespace Value.Plain

variable {depth : Nat} {v : Value}

/-- **Values read back**, where a value may end. The induction is for anything that may follow,
because on the way down a comma or a bracket follows an item, whatever comes behind the list or the
object. -/
theorem takes_value (h : Plain depth v) (hrest : Closes rest) :
    Takes (value depth) v.render.toList rest v := by
  induction h generalizing rest with
  | null =>
    refine takes_value_of_scalar (Takes.peek_bind ?_) _
    exact (takes_literal ['n', 'u', 'l', 'l'] rest).bind_last (takes_pure _ _)
  | bool b =>
    refine takes_value_of_scalar (Takes.peek_bind ?_) _
    cases b with
    | true => exact (takes_literal ['t', 'r', 'u', 'e'] rest).bind_last (takes_pure _ _)
    | false => exact (takes_literal ['f', 'a', 'l', 's', 'e'] rest).bind_last (takes_pure _ _)
  | number h => exact takes_value_of_scalar (takes_scalar_number h hrest.isEnd) _
  | text s =>
    refine takes_value_of_scalar (Takes.peek_bind ?_) _
    rw [Value.render, toList_quote]
    have h := (takes_quoted s rest).map Value.text
    rwa [toList_quote] at h
  | array h ih =>
    have hitems := takes_items (.inl rfl) (fun v hv => (h v hv).begins_render)
      (fun v hv rest hrest => ih v hv hrest) rest
    rw [Value.render, renderItems_eq_map, String.append_assoc, String.toList_append,
      String.toList_append]
    refine Takes.orElse_right rfl (Takes.peek_bind ?_)
    exact (takes_char '[' _).bind (hitems.map Value.array)
  | object h ih =>
    have hitems := takes_items (.inr rfl) (fun m _ => begins_renderMember m)
      (fun m hm rest hrest => takes_member (h m hm).begins_render (ih m hm hrest)) rest
    rw [Value.render, renderMembers_eq_map, String.append_assoc, String.toList_append,
      String.toList_append]
    refine Takes.orElse_right rfl (Takes.peek_bind ?_)
    exact (takes_char '\x7b' _).bind (hitems.map Value.object)

/-- **A value without floating-point numbers reads back from its text.** -/
theorem parse?_render (h : Plain 127 v) : parse? v.render = some v := by
  have hend : Closes [] := by simp [Closes]
  refine Takes.readAll? ?_
  refine Takes.bind_nil (h.begins_render.append []).takes_blanks ?_
  exact (h.takes_value hend).bind_last (hend.takes_blanks.bind_nil (takes_pure v []))

end Value.Plain

end Json
end TokenGovernance
