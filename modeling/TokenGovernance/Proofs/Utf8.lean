/-
# Texts and their bytes

A text is read back from its bytes (`Utf8.decode_encode`), nothing but the bytes of a text is read
(`Utf8.encode_decode`), and texts are in the order of their bytes (`Utf8.encode_lt`). All three are
facts about one character in front of anything. The number `n` of a character decides how many
bytes it has (`Utf8.encodeChar_eq`):

| `n` | bytes |
| --- | --- |
| up to `7F` | `n` |
| up to `7FF` | `C0 + n / 64`, `80 + n % 64` |
| up to `FFFF` | `E0 + n / 4096`, `80 + n / 64 % 64`, `80 + n % 64` |
| above | `F0 + n / 262144`, `80 + n / 4096 % 64`, `80 + n / 64 % 64`, `80 + n % 64` |

The first bytes of a longer sequence are larger than those of a shorter one, and within one length
the bytes are the digits of `n`, the highest first.
-/

import TokenGovernance.Text.Utf8

namespace TokenGovernance
namespace Utf8

/-- The bytes of a character, by its number. -/
theorem encodeChar_eq (c : Char) :
    c.toNat ≤ 0x7F ∧ String.utf8EncodeChar c = [.ofNat c.toNat] ∨
    0x7F < c.toNat ∧ c.toNat ≤ 0x7FF ∧ String.utf8EncodeChar c =
      [.ofNat (c.toNat / 64 + 0xC0), .ofNat (c.toNat % 64 + 0x80)] ∨
    0x7FF < c.toNat ∧ c.toNat ≤ 0xFFFF ∧ String.utf8EncodeChar c =
      [.ofNat (c.toNat / 4096 + 0xE0), .ofNat (c.toNat / 64 % 64 + 0x80),
        .ofNat (c.toNat % 64 + 0x80)] ∨
    0xFFFF < c.toNat ∧ c.toNat < 0x110000 ∧ String.utf8EncodeChar c =
      [.ofNat (c.toNat / 262144 + 0xF0), .ofNat (c.toNat / 4096 % 64 + 0x80),
        .ofNat (c.toNat / 64 % 64 + 0x80), .ofNat (c.toNat % 64 + 0x80)] := by
  have hlt : c.toNat < 0x110000 := by
    rcases c.valid with h | ⟨-, h⟩
    · exact Nat.lt_trans h (by decide)
    · exact h
  have hv : c.val.toNat = c.toNat := rfl
  unfold String.utf8EncodeChar
  simp only [hv]
  generalize c.toNat = n at *
  by_cases h₁ : n ≤ 0x7F
  · exact .inl ⟨h₁, if_pos h₁⟩
  rw [if_neg h₁]
  by_cases h₂ : n ≤ 0x7FF
  · rw [if_pos h₂, Nat.mod_eq_of_lt (show n / 64 < 0x20 by omega)]
    exact .inr (.inl ⟨by omega, h₂, rfl⟩)
  rw [if_neg h₂]
  by_cases h₃ : n ≤ 0xFFFF
  · rw [if_pos h₃, Nat.mod_eq_of_lt (show n / 4096 < 0x10 by omega)]
    exact .inr (.inr (.inl ⟨by omega, h₃, rfl⟩))
  · rw [if_neg h₃, Nat.mod_eq_of_lt (show n / 262144 < 0x08 by omega)]
    exact .inr (.inr (.inr ⟨by omega, hlt, rfl⟩))

/-- The bytes of a text are those that it is stored in. -/
theorem encode_eq_toUTF8 (s : String) : encode s = s.toUTF8.data.toList := by
  rw [String.toUTF8, ← String.utf8Encode_toList]
  simp [encode, List.utf8Encode]

/-- A number below 256 is that of its byte. -/
theorem toNat_ofNat {n : Nat} (h : n < 256) : (UInt8.ofNat n).toNat = n := by
  rw [UInt8.toNat_ofNat', Nat.mod_eq_of_lt h]

/-! ### Order -/

/-- A smaller character has smaller bytes, whatever follows. The bytes are compared from the first
on, so the first difference decides; a larger character has at least as many bytes, and where it has
more, its first byte is larger. -/
theorem encodeChar_lt {c d : Char} (h : c < d) (r s : List UInt8) :
    String.utf8EncodeChar c ++ r < String.utf8EncodeChar d ++ s := by
  have h : c.toNat < d.toNat := h
  have first {a b : Nat} (hab : a < b) (hb : b < 256) (r s : List UInt8) :
      UInt8.ofNat a :: r < UInt8.ofNat b :: s := by
    refine List.cons_lt_cons_iff.2 (.inl ?_)
    rw [UInt8.lt_iff_toNat_lt, toNat_ofNat (by omega), toNat_ofNat hb]
    exact hab
  have next {a b : Nat} {r s : List UInt8} (hab : a ≤ b) (hb : b < 256) (hrs : a = b → r < s) :
      UInt8.ofNat a :: r < UInt8.ofNat b :: s := by
    rcases Nat.lt_or_eq_of_le hab with hlt | rfl
    · exact first hlt hb r s
    · exact List.cons_lt_cons_iff.2 (.inr ⟨rfl, hrs rfl⟩)
  rcases encodeChar_eq c with ⟨hc, ec⟩ | ⟨hc, hc', ec⟩ | ⟨hc, hc', ec⟩ | ⟨hc, hc', ec⟩ <;>
    rcases encodeChar_eq d with ⟨hd, ed⟩ | ⟨hd, hd', ed⟩ | ⟨hd, hd', ed⟩ | ⟨hd, hd', ed⟩ <;>
    rw [ec, ed]
  case inr.inl.inl | inr.inr.inl.inl | inr.inr.inr.inl | inr.inr.inl.inr.inl |
      inr.inr.inr.inr.inl | inr.inr.inr.inr.inr.inl => omega
  case inr.inl.inr.inl =>
    exact next (by omega) (by omega) fun _ => first (by omega) (by omega) _ _
  case inr.inr.inl.inr.inr.inl =>
    exact next (by omega) (by omega) fun _ => next (by omega) (by omega) fun _ =>
      first (by omega) (by omega) _ _
  case inr.inr.inr.inr.inr.inr =>
    exact next (by omega) (by omega) fun _ => next (by omega) (by omega) fun _ =>
      next (by omega) (by omega) fun _ => first (by omega) (by omega) _ _
  all_goals exact first (by omega) (by omega) _ _

/-- **A smaller text has smaller bytes.** -/
theorem encode_lt {s t : String} (h : s < t) : encode s < encode t := by
  have h : s.toList < t.toList := h
  unfold encode
  generalize s.toList = cs at *
  generalize t.toList = ds at *
  induction h with
  | @nil d ds =>
    obtain ⟨b, bs, hb⟩ := List.exists_cons_of_ne_nil (String.utf8EncodeChar_ne_nil (c := d))
    rw [List.flatMap_nil, List.flatMap_cons, hb]
    exact List.nil_lt_cons _ _
  | cons _ ih =>
    rw [List.flatMap_cons, List.flatMap_cons]
    exact List.append_left_lt ih
  | rel h =>
    rw [List.flatMap_cons, List.flatMap_cons]
    exact encodeChar_lt h _ _

/-! ### Reading -/

section sequences

variable {a b c d : UInt8} {index : Nat} {rest : List UInt8}

/-- A byte below `80` is read on its own. -/
theorem decodeFrom_one (h : sequenceLength a = 1) : decodeFrom index (a :: rest) =
    (Char.ofNat a.toNat :: ·) <$> decodeFrom (index + 1) rest := by
  rw [decodeFrom.eq_def]
  simp only [h, if_true]
  rfl

/-- Two bytes that go together are read as one character. -/
theorem decodeFrom_two (h : sequenceLength a = 2) (hb : maySecond a b = true) :
    decodeFrom index (a :: b :: rest) =
      (character₂ a b :: ·) <$> decodeFrom (index + 2) rest := by
  rw [decodeFrom.eq_def]
  simp only [h, hb, Nat.reduceEqDiff, if_false, Bool.not_true, Bool.false_eq_true, if_true]
  rfl

/-- Three bytes that go together are read as one character. -/
theorem decodeFrom_three (h : sequenceLength a = 3) (hb : maySecond a b = true)
    (hc : isContinuation c = true) :
    decodeFrom index (a :: b :: c :: rest) =
      (character₃ a b c :: ·) <$> decodeFrom (index + 3) rest := by
  rw [decodeFrom.eq_def]
  simp only [h, hb, hc, Nat.reduceEqDiff, if_false, Bool.not_true, Bool.false_eq_true, if_true]
  rfl

/-- Four bytes that go together are read as one character. -/
theorem decodeFrom_four (h : sequenceLength a = 4) (hb : maySecond a b = true)
    (hc : isContinuation c = true) (hd : isContinuation d = true) :
    decodeFrom index (a :: b :: c :: d :: rest) =
      (character₄ a b c d :: ·) <$> decodeFrom (index + 4) rest := by
  rw [decodeFrom.eq_def]
  simp only [h, hb, hc, hd, Nat.reduceEqDiff, if_false, Bool.not_true, Bool.false_eq_true]
  rfl

end sequences

/-- How long a sequence is, by the number of its first byte. No sequence begins with `80` to `C1`,
or above `F4`. -/
theorem sequenceLength_eq (a : UInt8) : sequenceLength a =
    if a.toNat < 0x80 then 1 else if a.toNat < 0xC2 then 0 else if a.toNat < 0xE0 then 2
    else if a.toNat < 0xF0 then 3 else if a.toNat < 0xF5 then 4 else 0 := by
  simp only [sequenceLength, UInt8.lt_iff_toNat_lt]
  rfl

/-- How long a sequence is that begins with the byte of a number. -/
theorem sequenceLength_ofNat {n : Nat} (h : n < 256) : sequenceLength (.ofNat n) =
    if n < 0x80 then 1 else if n < 0xC2 then 0 else if n < 0xE0 then 2 else if n < 0xF0 then 3
    else if n < 0xF5 then 4 else 0 := by
  rw [sequenceLength_eq, toNat_ofNat h]

/-- The later bytes of a character are marked as such. -/
theorem isContinuation_ofNat (n : Nat) : isContinuation (.ofNat (n % 64 + 0x80)) = true := by
  have h : (UInt8.ofNat (n % 64 + 0x80)).toNat = n % 64 + 0x80 := toNat_ofNat (by omega)
  simp only [isContinuation, Bool.and_eq_true, decide_eq_true_eq, UInt8.le_iff_toNat_le,
    UInt8.lt_iff_toNat_lt, h, UInt8.reduceToNat]
  omega

/-- A later byte carries its six bits. -/
theorem payload_ofNat (n : Nat) : payload (.ofNat (n % 64 + 0x80)) = n % 64 := by
  unfold payload
  rw [toNat_ofNat (by omega)]
  omega

/-- What the first byte asks of the second: no character is written longer than it must be, and
there are none from `D800` to `DFFF` and none above `10FFFF`. -/
theorem maySecond_ofNat {m n : Nat} (hm : m < 256) (hE0 : m = 0xE0 → 0x20 ≤ n % 64)
    (hED : m = 0xED → n % 64 < 0x20) (hF0 : m = 0xF0 → 0x10 ≤ n % 64)
    (hF4 : m = 0xF4 → n % 64 < 0x10) :
    maySecond (.ofNat m) (.ofNat (n % 64 + 0x80)) = true := by
  have hb : (UInt8.ofNat (n % 64 + 0x80)).toNat = n % 64 + 0x80 := toNat_ofNat (by omega)
  unfold maySecond
  simp only [← UInt8.toNat_inj, toNat_ofNat hm, isContinuation_ofNat, UInt8.le_iff_toNat_le,
    UInt8.lt_iff_toNat_lt, hb, UInt8.reduceToNat]
  grind

section characters

variable {c : Char} {index : Nat} {rest : List UInt8}

/-- A character is that of its number. -/
theorem charOfNat_eq {n : Nat} (h : n = c.toNat) : Char.ofNat n = c := by
  rw [h, Char.ofNat_toNat]

/-- A number below `80` is read as its character. -/
theorem decodeFrom_char_one (h : c.toNat ≤ 0x7F) :
    decodeFrom index (.ofNat c.toNat :: rest) = (c :: ·) <$> decodeFrom (index + 1) rest := by
  have hs : sequenceLength (.ofNat c.toNat) = 1 := by
    rw [sequenceLength_ofNat (by omega), if_pos (by omega)]
  rw [decodeFrom_one hs, charOfNat_eq (toNat_ofNat (by omega))]

/-- The two digits of a number up to `7FF` are read as its character. -/
theorem decodeFrom_char_two (h : 0x7F < c.toNat) (h' : c.toNat ≤ 0x7FF) :
    decodeFrom index (.ofNat (c.toNat / 64 + 0xC0) :: .ofNat (c.toNat % 64 + 0x80) :: rest) =
      (c :: ·) <$> decodeFrom (index + 2) rest := by
  have hs : sequenceLength (.ofNat (c.toNat / 64 + 0xC0)) = 2 := by
    rw [sequenceLength_ofNat (by omega)]
    grind
  have hb := maySecond_ofNat (m := c.toNat / 64 + 0xC0) (n := c.toNat) (by omega) (by omega)
    (by omega) (by omega) (by omega)
  have hchar : character₂ (.ofNat (c.toNat / 64 + 0xC0)) (.ofNat (c.toNat % 64 + 0x80)) = c := by
    refine charOfNat_eq ?_
    rw [toNat_ofNat (by omega), payload_ofNat]
    omega
  rw [decodeFrom_two hs hb, hchar]

/-- The three digits of a number up to `FFFF` are read as its character, which is no surrogate. -/
theorem decodeFrom_char_three (h : 0x7FF < c.toNat) (h' : c.toNat ≤ 0xFFFF) :
    decodeFrom index (.ofNat (c.toNat / 4096 + 0xE0) :: .ofNat (c.toNat / 64 % 64 + 0x80) ::
      .ofNat (c.toNat % 64 + 0x80) :: rest) = (c :: ·) <$> decodeFrom (index + 3) rest := by
  have hv : c.toNat < 0xD800 ∨ 0xDFFF < c.toNat ∧ c.toNat < 0x110000 := c.valid
  have hs : sequenceLength (.ofNat (c.toNat / 4096 + 0xE0)) = 3 := by
    rw [sequenceLength_ofNat (by omega)]
    grind
  have hb := maySecond_ofNat (m := c.toNat / 4096 + 0xE0) (n := c.toNat / 64) (by omega)
    (by omega) (by omega) (by omega) (by omega)
  have hchar : character₃ (.ofNat (c.toNat / 4096 + 0xE0)) (.ofNat (c.toNat / 64 % 64 + 0x80))
      (.ofNat (c.toNat % 64 + 0x80)) = c := by
    refine charOfNat_eq ?_
    rw [toNat_ofNat (by omega), payload_ofNat, payload_ofNat]
    omega
  rw [decodeFrom_three hs hb (isContinuation_ofNat _), hchar]

/-- The four digits of a number above `FFFF` are read as its character. -/
theorem decodeFrom_char_four (h : 0xFFFF < c.toNat) (h' : c.toNat < 0x110000) :
    decodeFrom index (.ofNat (c.toNat / 262144 + 0xF0) :: .ofNat (c.toNat / 4096 % 64 + 0x80) ::
      .ofNat (c.toNat / 64 % 64 + 0x80) :: .ofNat (c.toNat % 64 + 0x80) :: rest) =
      (c :: ·) <$> decodeFrom (index + 4) rest := by
  have hs : sequenceLength (.ofNat (c.toNat / 262144 + 0xF0)) = 4 := by
    rw [sequenceLength_ofNat (by omega)]
    grind
  have hb := maySecond_ofNat (m := c.toNat / 262144 + 0xF0) (n := c.toNat / 4096) (by omega)
    (by omega) (by omega) (by omega) (by omega)
  have hchar : character₄ (.ofNat (c.toNat / 262144 + 0xF0)) (.ofNat (c.toNat / 4096 % 64 + 0x80))
      (.ofNat (c.toNat / 64 % 64 + 0x80)) (.ofNat (c.toNat % 64 + 0x80)) = c := by
    refine charOfNat_eq ?_
    rw [toNat_ofNat (by omega), payload_ofNat, payload_ofNat, payload_ofNat]
    omega
  rw [decodeFrom_four hs hb (isContinuation_ofNat _) (isContinuation_ofNat _), hchar]

end characters

/-- **A character is read back in front of anything**, by its number as it is written. -/
theorem decodeFrom_encodeChar (c : Char) (index : Nat) (rest : List UInt8) :
    decodeFrom index (String.utf8EncodeChar c ++ rest) =
      (c :: ·) <$> decodeFrom (index + (String.utf8EncodeChar c).length) rest := by
  rcases encodeChar_eq c with ⟨h, e⟩ | ⟨h, h', e⟩ | ⟨h, h', e⟩ | ⟨h, h', e⟩ <;> rw [e]
  · exact decodeFrom_char_one h
  · exact decodeFrom_char_two h h'
  · exact decodeFrom_char_three h h'
  · exact decodeFrom_char_four h h'

/-- **A text is read back from its bytes.** -/
theorem decode_encode (s : String) : decode (encode s) = .ok s := by
  have hfrom (cs : List Char) (index : Nat) :
      decodeFrom index (cs.flatMap String.utf8EncodeChar) = .ok cs := by
    induction cs generalizing index with
    | nil => rfl
    | cons c cs ih =>
      rw [List.flatMap_cons, decodeFrom_encodeChar, ih]
      rfl
  unfold decode encode
  rw [hfrom]
  show Except.ok (String.ofList s.toList) = _
  rw [String.ofList_toList]

/-! ### Nothing else is read -/

section sequences

variable {a b c d : UInt8}

/-- A byte that is marked as a later one is from `80` to `BF`. -/
theorem le_of_isContinuation (h : isContinuation b = true) : 0x80 ≤ b.toNat ∧ b.toNat < 0xC0 := by
  simpa only [isContinuation, Bool.and_eq_true, decide_eq_true_eq, UInt8.le_iff_toNat_le,
    UInt8.lt_iff_toNat_lt, UInt8.reduceToNat] using h

/-- What the second byte is known to be when it may stand after the first. Four first bytes ask for
more than that it is a later byte. -/
theorem of_maySecond (h : maySecond a b = true) : (0x80 ≤ b.toNat ∧ b.toNat < 0xC0) ∧
    (a.toNat = 0xE0 → 0xA0 ≤ b.toNat) ∧ (a.toNat = 0xED → b.toNat < 0xA0) ∧
    (a.toNat = 0xF0 → 0x90 ≤ b.toNat) ∧ (a.toNat = 0xF4 → b.toNat < 0x90) := by
  unfold maySecond isContinuation at h
  simp only [← UInt8.toNat_inj, UInt8.le_iff_toNat_le, UInt8.lt_iff_toNat_lt,
    UInt8.reduceToNat] at h
  repeat' split at h
  all_goals
    simp only [Bool.and_eq_true, decide_eq_true_eq] at h
    omega

/-- A byte is that of its number. -/
theorem ofNat_eq {n : Nat} (h : n = a.toNat) : UInt8.ofNat n = a := by
  rw [h, UInt8.ofNat_toNat]

/-- A number outside the surrogates is that of a character. -/
theorem toNat_charOfNat {n : Nat} (h : n.isValidChar) : (Char.ofNat n).toNat = n := by
  unfold Char.ofNat
  rw [dif_pos h]
  rfl

/-- The character of a single byte is written as it. -/
theorem encodeChar_one (h : sequenceLength a = 1) :
    String.utf8EncodeChar (Char.ofNat a.toNat) = [a] := by
  rw [sequenceLength_eq] at h
  have ha : a.toNat < 0x80 := by grind
  have hchar : (Char.ofNat a.toNat).toNat = a.toNat := toNat_charOfNat (.inl (by omega))
  rcases encodeChar_eq (Char.ofNat a.toNat) with ⟨-, e⟩ | ⟨h, -⟩ | ⟨h, -⟩ | ⟨h, -⟩
  · rw [e, hchar, ofNat_eq rfl]
  all_goals omega

/-- The character of two bytes is written as them: a first byte of `C2` or more makes its number too
large for one. -/
theorem encodeChar_two (h : sequenceLength a = 2) (hb : maySecond a b = true) :
    String.utf8EncodeChar (character₂ a b) = [a, b] := by
  rw [sequenceLength_eq] at h
  have ha : 0xC2 ≤ a.toNat ∧ a.toNat < 0xE0 := by grind
  obtain ⟨hb, -⟩ := of_maySecond hb
  have hchar : (character₂ a b).toNat = (a.toNat % 0x20) * 0x40 + b.toNat % 0x40 :=
    toNat_charOfNat (.inl (by unfold payload; omega))
  rcases encodeChar_eq (character₂ a b) with ⟨h, -⟩ | ⟨-, -, e⟩ | ⟨h, -⟩ | ⟨h, -⟩
  · omega
  · rw [e, hchar, ofNat_eq (a := a) (by omega), ofNat_eq (a := b) (by omega)]
  all_goals omega

/-- The character of three bytes is written as them: what the first one asks of the second makes its
number too large for two, and keeps it out of the surrogates. -/
theorem encodeChar_three (h : sequenceLength a = 3) (hb : maySecond a b = true)
    (hc : isContinuation c = true) :
    String.utf8EncodeChar (character₃ a b c) = [a, b, c] := by
  rw [sequenceLength_eq] at h
  have ha : 0xE0 ≤ a.toNat ∧ a.toNat < 0xF0 := by grind
  obtain ⟨hb, hE0, hED, -⟩ := of_maySecond hb
  have hc := le_of_isContinuation hc
  have hchar : (character₃ a b c).toNat =
      ((a.toNat % 0x10) * 0x40 + b.toNat % 0x40) * 0x40 + c.toNat % 0x40 :=
    toNat_charOfNat (by unfold payload Nat.isValidChar; omega)
  rcases encodeChar_eq (character₃ a b c) with ⟨h, -⟩ | ⟨-, h, -⟩ | ⟨-, -, e⟩ | ⟨h, -⟩
  · omega
  · omega
  · rw [e, hchar, ofNat_eq (a := a) (by omega), ofNat_eq (a := b) (by omega),
      ofNat_eq (a := c) (by omega)]
  · omega

/-- The character of four bytes is written as them: what the first one asks of the second makes its
number too large for three, and not too large for a character. -/
theorem encodeChar_four (h₁ : sequenceLength a ≠ 1) (h₀ : sequenceLength a ≠ 0)
    (h₂ : sequenceLength a ≠ 2) (h₃ : sequenceLength a ≠ 3) (hb : maySecond a b = true)
    (hc : isContinuation c = true) (hd : isContinuation d = true) :
    String.utf8EncodeChar (character₄ a b c d) = [a, b, c, d] := by
  rw [sequenceLength_eq] at h₁ h₀ h₂ h₃
  have ha : 0xF0 ≤ a.toNat ∧ a.toNat < 0xF5 := by grind
  obtain ⟨hb, -, -, hF0, hF4⟩ := of_maySecond hb
  have hc := le_of_isContinuation hc
  have hd := le_of_isContinuation hd
  have hchar : (character₄ a b c d).toNat =
      (((a.toNat % 0x08) * 0x40 + b.toNat % 0x40) * 0x40 + c.toNat % 0x40) * 0x40 +
        d.toNat % 0x40 :=
    toNat_charOfNat (by unfold payload Nat.isValidChar; omega)
  rcases encodeChar_eq (character₄ a b c d) with ⟨h, -⟩ | ⟨-, h, -⟩ | ⟨-, h, -⟩ | ⟨-, -, e⟩
  · omega
  · omega
  · omega
  · rw [e, hchar, ofNat_eq (a := a) (by omega), ofNat_eq (a := b) (by omega),
      ofNat_eq (a := c) (by omega), ofNat_eq (a := d) (by omega)]

end sequences

/-- The characters that are read from a row of bytes are written as it, whatever the length of each
sequence; a row that is refused at any of them has no characters. -/
theorem encode_decodeFrom {index : Nat} {bytes : List UInt8} {cs : List Char}
    (h : decodeFrom index bytes = .ok cs) : cs.flatMap String.utf8EncodeChar = bytes := by
  have cons {c : Char} {r : Except Fault (List Char)} {cs : List Char} {first rest : List UInt8}
      (h : (return c :: (← r) : Except Fault (List Char)) = .ok cs)
      (hc : String.utf8EncodeChar c = first)
      (ih : ∀ {cs}, r = .ok cs → cs.flatMap String.utf8EncodeChar = rest) :
      cs.flatMap String.utf8EncodeChar = first ++ rest := by
    rcases r with f | tail
    · cases h
    · cases h
      rw [List.flatMap_cons, hc, ih rfl]
  fun_induction decodeFrom index bytes generalizing cs with
  | case1 =>
    cases h
    rfl
  | case2 index a rest hs ih => exact cons h (encodeChar_one hs) ih
  | case6 index a _ _ b rest hb hs ih =>
    exact cons h (encodeChar_two hs (by simpa using hb)) ih
  | case9 index a _ _ b hb _ c rest hc hs ih =>
    exact cons h (encodeChar_three hs (by simpa using hb) (by simpa using hc)) ih
  | case12 index a h₁ h₀ b hb h₂ c hc h₃ d rest hd ih =>
    exact cons h (encodeChar_four h₁ h₀ h₂ h₃ (by simpa using hb) (by simpa using hc)
      (by simpa using hd)) ih
  | _ => cases h

/-- **Nothing but the bytes of a text is read.** -/
theorem encode_decode {bytes : List UInt8} {s : String} (h : decode bytes = .ok s) :
    encode s = bytes := by
  unfold decode at h
  rcases hd : decodeFrom 0 bytes with f | cs
  · rw [hd] at h
    cases h
  · rw [hd] at h
    cases h
    rw [encode, String.toList_ofList, encode_decodeFrom hd]

end Utf8
end TokenGovernance
