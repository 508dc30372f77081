/-
# What is written can be read

The items of a map or of a set may be written in any order, so a value has more than one row of
bytes. The `Spelling` of a codec says which rows spell a value. What the codec writes is one of
them (`Spelling.spells_write`), and each is read back as the value, whatever follows it
(`Spelling.read`).

| codec | spelled by |
| --- | --- |
| number, yes or no, text, account | what is written, and nothing else |
| record, optional value, alternative | the spellings of its parts |
| list | its count and spellings of its items, in order |
| map, set | its count and spellings of its items, in any order |

A count has eight bytes, so this is said of rows that are shorter than a count can tell, as any row
of bytes that is held in memory is. For a list it takes that no item is spelled by nothing.
-/

import TokenGovernance.Binary.Codec
import TokenGovernance.Proofs.SortedMap
import TokenGovernance.Proofs.Utf8

namespace TokenGovernance
namespace Binary

variable {α β κ : Type}

namespace Reader

variable {reader : Reader α} {k : α → Reader β} {bytes rest : ByteString} {v : α}

/-- A reader that answers is followed by the next one, where it stopped. -/
theorem bind_ok (h : reader bytes = .ok (v, rest)) : (reader >>= k) bytes = k v rest := by
  show (reader bytes >>= fun p => k p.1 p.2) = _
  rw [h]
  rfl

/-- Naming what is found takes no more bytes. -/
theorem map_ok (h : reader bytes = .ok (v, rest)) (f : α → β) :
    (f <$> reader) bytes = .ok (f v, rest) := by
  show (reader bytes >>= fun p => pure (f p.1, p.2)) = _
  rw [h]
  rfl

/-- A number is read from its bytes. -/
theorem quantity_littleEndian (width : Nat) {n : Nat} (h : n < 1 <<< (8 * width))
    (rest : ByteString) :
    quantity width (ByteString.littleEndian width n ++ rest) = .ok (⟨n, h⟩, rest) := by
  have hlength := ByteString.length_littleEndian width n
  unfold quantity
  rw [dif_pos (by rw [List.length_append, hlength]; exact Nat.le_add_right _ _)]
  simp only [List.take_left' hlength, List.drop_left' hlength,
    ByteString.ofLittleEndian_littleEndian h]

/-- A text is read from its bytes. -/
theorem text_encode (s : String) (rest : ByteString) :
    text (Utf8.encode s).length (Utf8.encode s ++ rest) = .ok (s, rest) := by
  unfold text
  rw [if_neg (by rw [List.length_append]; omega), List.take_left, List.drop_left,
    Utf8.decode_encode]

end Reader

/-- The values of a list are spelled one after the other. -/
def SpellAll (Spells : α → ByteString → Prop) : List α → ByteString → Prop
  | [], bytes => bytes = []
  | v :: vs, bytes => ∃ x y, Spells v x ∧ SpellAll Spells vs y ∧ bytes = x ++ y

/-- **The rows of bytes that spell a value, each of which is read as it.** -/
structure Spelling (c : Codec α) where
  /-- Whether a row of bytes spells a value. -/
  Spells : α → ByteString → Prop
  /-- No value is spelled by fewer bytes. -/
  least : Nat
  least_le {v : α} {bytes : ByteString} (h : Spells v bytes) : least ≤ bytes.length
  spells_write (v : α) : Spells v (c.write v)
  read {v : α} {bytes : ByteString} (h : Spells v bytes) (short : bytes.length < 1 <<< 64)
    (rest : ByteString) : c.read (bytes ++ rest) = .ok (v, rest)

namespace Spelling

variable {c : Codec α} {d : Codec β}

/-- A codec whose values have one spelling each. -/
def exact (c : Codec α) (least : Nat) (least_le : ∀ v, least ≤ (c.write v).length)
    (read : ∀ v, (c.write v).length < 1 <<< 64 → ∀ rest,
      c.read (c.write v ++ rest) = .ok (v, rest)) : Spelling c where
  Spells v bytes := bytes = c.write v
  least
  least_le h := h ▸ least_le _
  spells_write _ := rfl
  read := by
    rintro v _ rfl short rest
    exact read v short rest

/-- Values that correspond to values of another type are spelled as those. -/
def imap (f : Spelling c) (pack : α → β) (unpack : β → α) (inverse : ∀ b, pack (unpack b) = b) :
    Spelling (c.imap pack unpack) where
  Spells b bytes := f.Spells (unpack b) bytes
  least := f.least
  least_le h := f.least_le h
  spells_write b := f.spells_write (unpack b)
  read {b} _ h short rest := by
    have hread := Reader.map_ok (f.read h short rest) pack
    rwa [inverse] at hread

/-! ### Numbers, records and alternatives -/

/-- A number is spelled by the word of its width. -/
def quantity (width : Nat) : Spelling (Codec.quantity width) :=
  exact _ width (fun q => Nat.le_of_eq (ByteString.length_littleEndian width q.val).symm)
    fun q _ rest => Reader.quantity_littleEndian width q.val_lt rest

/-- A byte is spelled by itself. -/
def byte : Spelling Codec.byte := exact _ 1 (fun _ => Nat.le_refl 1) fun _ _ _ => rfl

/-- Yes and no are spelled by one byte. -/
def bool : Spelling Codec.bool :=
  exact _ 1 (fun _ => Nat.le_refl 1) fun b _ _ => by cases b <;> rfl

/-- Nothing is spelled by no byte. -/
def unit : Spelling Codec.unit := exact _ 0 (fun _ => Nat.zero_le _) fun _ _ _ => rfl

/-- A record is spelled by its fields in order. -/
def pair (f : Spelling c) (g : Spelling d) : Spelling (c.pair d) where
  Spells v bytes := ∃ x y, f.Spells v.1 x ∧ g.Spells v.2 y ∧ bytes = x ++ y
  least := f.least + g.least
  least_le := by
    rintro v _ ⟨x, y, hx, hy, rfl⟩
    rw [List.length_append]
    exact Nat.add_le_add (f.least_le hx) (g.least_le hy)
  spells_write v := ⟨_, _, f.spells_write v.1, g.spells_write v.2, rfl⟩
  read := by
    rintro v _ ⟨x, y, hx, hy, rfl⟩ short rest
    rw [List.length_append] at short
    have hfirst := f.read hx (by omega) (y ++ rest)
    have hsecond := g.read hy (by omega) rest
    rw [List.append_assoc]
    exact (Reader.bind_ok hfirst).trans (Reader.bind_ok hsecond)

/-- An optional value is spelled by its tag and what it has. -/
def option (f : Spelling c) : Spelling c.option where
  Spells o bytes := o.elim (bytes = [0]) fun v => ∃ x, f.Spells v x ∧ bytes = 1 :: x
  least := 1
  least_le {o bytes} h := by
    cases o with
    | none => exact Nat.le_of_eq (congrArg List.length h).symm
    | some v =>
      obtain ⟨x, -, rfl⟩ := h
      exact Nat.succ_le_succ (Nat.zero_le _)
  spells_write o := by
    cases o with
    | none => rfl
    | some v => exact ⟨_, f.spells_write v, rfl⟩
  read {o bytes} h short rest := by
    cases o with
    | none =>
      cases h
      rfl
    | some v =>
      obtain ⟨x, hx, rfl⟩ := h
      rw [List.length_cons] at short
      exact Reader.map_ok (f.read hx (by omega) rest) some

/-- The index of an alternative is read as it is written. -/
theorem read_writeIndex {index : Nat} (h : index < 1 <<< 32) (rest : ByteString) :
    Reader.quantity 4 (Codec.writeIndex index ++ rest) = .ok (⟨index, h⟩, rest) :=
  Reader.quantity_littleEndian 4 h rest

/-- A value of an enumeration is spelled by its index. -/
def enumeration [DecidableEq α] (values : List α) (complete : ∀ v, v ∈ values)
    (short : values.length < 1 <<< 32) : Spelling (Codec.enumeration values) :=
  exact _ 4 (fun _ => Nat.le_of_eq (ByteString.length_littleEndian 4 _).symm) fun v _ rest => by
    have hindex := List.idxOf_lt_length_iff.2 (complete v)
    refine (Reader.bind_ok (read_writeIndex (Nat.lt_trans hindex short) rest)).trans ?_
    simp only [List.getElem?_eq_getElem hindex, List.getElem_idxOf]
    rfl

/-- An alternative is spelled by its index and what it has. -/
def either (f : Spelling c) (g : Spelling d) : Spelling (c.either d) where
  Spells v bytes :=
    v.elim (fun v => ∃ x, f.Spells v x ∧ bytes = Codec.writeIndex 0 ++ x)
      fun v => ∃ x, g.Spells v x ∧ bytes = Codec.writeIndex 1 ++ x
  least := 4
  least_le {v bytes} h := by
    cases v with
    | inl v =>
      obtain ⟨x, -, rfl⟩ := h
      exact Nat.le_add_left 4 x.length
    | inr v =>
      obtain ⟨x, -, rfl⟩ := h
      exact Nat.le_add_left 4 x.length
  spells_write v := by
    cases v with
    | inl v => exact ⟨_, f.spells_write v, rfl⟩
    | inr v => exact ⟨_, g.spells_write v, rfl⟩
  read {v bytes} h short rest := by
    cases v with
    | inl v =>
      obtain ⟨x, hx, rfl⟩ := h
      rw [List.length_append] at short
      rw [List.append_assoc]
      refine (Reader.bind_ok (read_writeIndex (by decide) (x ++ rest))).trans ?_
      exact Reader.map_ok (f.read hx (by omega) rest) Sum.inl
    | inr v =>
      obtain ⟨x, hx, rfl⟩ := h
      rw [List.length_append] at short
      rw [List.append_assoc]
      refine (Reader.bind_ok (read_writeIndex (by decide) (x ++ rest))).trans ?_
      exact Reader.map_ok (g.read hx (by omega) rest) Sum.inr

/-! ### Counted values -/

/-- A count is read as it is written, if it fits. -/
theorem read_writeCount {count : Nat} (h : count < 1 <<< 64) (rest : ByteString) :
    Reader.quantity 8 (Codec.writeCount count ++ rest) = .ok (⟨count, h⟩, rest) :=
  Reader.quantity_littleEndian 8 h rest

/-- A count is written in eight bytes, however large it is. -/
theorem length_writeCount (count : Nat) : (Codec.writeCount count).length = 8 :=
  ByteString.length_littleEndian 8 count

/-- A text is spelled by its count of bytes and its UTF-8 bytes. -/
def text : Spelling Codec.text :=
  exact _ 8 (fun s => by
    show 8 ≤ (Codec.writeCount _ ++ _).length
    rw [List.length_append, length_writeCount]
    exact Nat.le_add_right _ _) fun s short rest => by
    have short : (Codec.writeCount _ ++ Utf8.encode s).length < 1 <<< 64 := short
    rw [List.length_append] at short
    show Codec.text.read (Codec.writeCount _ ++ Utf8.encode s ++ rest) = _
    rw [List.append_assoc]
    exact (Reader.bind_ok (read_writeCount (by omega) _)).trans (Reader.text_encode s rest)

/-- An account is spelled by the text of its name. -/
def account : Spelling Codec.account :=
  exact _ 8 (fun a => text.least_le (text.spells_write a.name)) fun a short rest => by
    have hname := text.read (text.spells_write a.name) short rest
    refine (Reader.bind_ok hname).trans ?_
    rw [Account.ofName?_name]
    rfl

/-- A list is spelled by no fewer bytes than it has values. -/
theorem length_le_of_spellAll (f : Spelling c) (pos : 0 < f.least) {vs : List α}
    {bytes : ByteString} (h : SpellAll f.Spells vs bytes) : vs.length ≤ bytes.length := by
  induction vs generalizing bytes with
  | nil => exact Nat.zero_le _
  | cons v vs ih =>
    obtain ⟨x, y, hx, hy, rfl⟩ := h
    have hfirst := f.least_le hx
    have hrest := ih hy
    rw [List.length_cons, List.length_append]
    omega

/-- **Values that are spelled one after the other are read one after the other.** -/
theorem read_times (f : Spelling c) {vs : List α} {bytes : ByteString}
    (h : SpellAll f.Spells vs bytes) (short : bytes.length < 1 <<< 64) (rest : ByteString) :
    Reader.times c.read vs.length (bytes ++ rest) = .ok (vs, rest) := by
  induction vs generalizing bytes with
  | nil =>
    cases h
    rfl
  | cons v vs ih =>
    obtain ⟨x, y, hx, hy, rfl⟩ := h
    rw [List.length_append] at short
    have hfirst := f.read hx (by omega) (y ++ rest)
    have hrest := ih hy (by omega)
    rw [List.append_assoc]
    exact (Reader.bind_ok hfirst).trans (Reader.bind_ok hrest)

/-- Values that are written one after the other are spelled one after the other. -/
theorem spellAll_flatMap (f : Spelling c) (vs : List α) :
    SpellAll f.Spells vs (vs.flatMap c.write) := by
  induction vs with
  | nil => rfl
  | cons v vs ih => exact ⟨_, _, f.spells_write v, ih, List.flatMap_cons⟩

/-- A list is spelled by its count and its values in order, none of which is spelled by nothing. -/
def list (f : Spelling c) (pos : 0 < f.least) : Spelling c.list where
  Spells vs bytes :=
    ∃ items, SpellAll f.Spells vs items ∧ bytes = Codec.writeCount vs.length ++ items
  least := 8
  least_le := by
    rintro vs _ ⟨items, -, rfl⟩
    rw [List.length_append, length_writeCount]
    exact Nat.le_add_right _ _
  spells_write vs := ⟨_, f.spellAll_flatMap vs, rfl⟩
  read := by
    rintro vs _ ⟨items, hitems, rfl⟩ short rest
    have hcount := f.length_le_of_spellAll pos hitems
    rw [List.length_append] at short
    rw [List.append_assoc]
    exact (Reader.bind_ok (read_writeCount (by omega) _)).trans
      (f.read_times hitems (by omega) rest)

/-! ### Sorted values -/

section Sorted

variable [Ord κ] [Std.TransOrd κ] [Std.LawfulEqOrd κ] [DecidableEq κ] {k : Codec κ}

/-- **A map is spelled by its entries in any order.** -/
def map (f : Spelling k) (g : Spelling c) (pos : 0 < f.least) : Spelling (Codec.map k c) where
  Spells m bytes :=
    ∃ entries, entries.Perm m.toList ∧
      ((f.pair g).list (Nat.add_pos_left pos _)).Spells entries bytes
  least := 8
  least_le := by
    rintro m bytes ⟨entries, -, h⟩
    exact Spelling.least_le _ h
  spells_write m := ⟨_, .refl _, Spelling.spells_write _ m.toList⟩
  read := by
    rintro m bytes ⟨entries, hperm, h⟩ short rest
    have hread := Reader.map_ok (Spelling.read _ h short rest) (Std.ExtTreeMap.ofList ·)
    rwa [SortedMap.ofList_of_perm hperm] at hread

/-- A set is spelled by its members in any order. -/
def set (f : Spelling k) (pos : 0 < f.least) : Spelling (Codec.set k) where
  Spells s bytes := ∃ items, items.Perm s.toList ∧ (f.list pos).Spells items bytes
  least := 8
  least_le := by
    rintro s bytes ⟨items, -, h⟩
    exact Spelling.least_le _ h
  spells_write s := ⟨_, .refl _, Spelling.spells_write _ s.toList⟩
  read := by
    rintro s bytes ⟨items, hperm, h⟩ short rest
    have hread := Reader.map_ok (Spelling.read _ h short rest) (Std.ExtTreeSet.ofList ·)
    rwa [SortedSet.ofList_of_perm hperm] at hread

end Sorted

end Spelling
end Binary
end TokenGovernance
