/-
# What was read can be read again

Bytes that were read need not be those that are written for the value: they may go on after it, and
those of a map may name a key twice and give the entries in any order. What was read from them is
read again all the same from each of its spellings (`Spelling.Stable`). This takes no bound on the
length of anything. A count that was read fits into its eight bytes, and where a map or a set was
read, no more entries are left than were counted:

| codec | what was read is read again because |
| --- | --- |
| number, yes or no, enumeration, digest | its spelling is short |
| text, list | its count was read |
| record, optional value, alternative | its parts were read |
| map, set | each of its entries was read, and they are no more than were counted |
-/

import TokenGovernance.Proofs.Binary.Exact

namespace TokenGovernance
namespace Binary

variable {α β κ : Type}

/-- Values that are taken one after the other are as many as are asked for, and each is taken. -/
theorem Reader.of_times_ok {reader : Reader α} {count : Nat} {vs : List α}
    {bytes rest : ByteString} (h : Reader.times reader count bytes = .ok (vs, rest)) :
    vs.length = count ∧ ∀ v ∈ vs, ∃ before after, reader before = .ok (v, after) := by
  induction count generalizing vs bytes with
  | zero =>
    cases h
    exact ⟨rfl, fun v hv => nomatch hv⟩
  | succ count ih =>
    obtain ⟨first, middle, hfirst, h⟩ := Reader.of_bind_ok h
    obtain ⟨others, last, hothers, h⟩ := Reader.of_bind_ok h
    cases h
    obtain ⟨hlength, htaken⟩ := ih hothers
    exact ⟨congrArg Nat.succ hlength, List.forall_mem_cons.2 ⟨⟨bytes, middle, hfirst⟩, htaken⟩⟩

namespace Spelling

variable {c : Codec α} {d : Codec β}

/-- Whether each spelling of a value is read as it, whatever follows. -/
def Keeps (f : Spelling c) (v : α) : Prop :=
  ∀ bytes, f.Spells v bytes → ∀ rest, c.read (bytes ++ rest) = .ok (v, rest)

/-- **What is read is read again**, from each of its spellings. -/
structure Stable (f : Spelling c) : Prop where
  keeps : ∀ {v : α} {bytes rest : ByteString}, c.read bytes = .ok (v, rest) → f.Keeps v

/-- Values that are kept one by one are read one after the other. -/
theorem times_of_keeps (f : Spelling c) {vs : List α} {bytes : ByteString}
    (kept : ∀ v ∈ vs, f.Keeps v) (h : SpellAll f.Spells vs bytes) (rest : ByteString) :
    Reader.times c.read vs.length (bytes ++ rest) = .ok (vs, rest) := by
  induction vs generalizing bytes with
  | nil =>
    cases h
    rfl
  | cons v vs ih =>
    obtain ⟨x, y, hx, hy, rfl⟩ := h
    obtain ⟨hv, hvs⟩ := List.forall_mem_cons.1 kept
    rw [List.append_assoc]
    exact (Reader.bind_ok (hv x hx (y ++ rest))).trans (Reader.bind_ok (ih hvs hy))

/-- Values that are kept make a list that is kept, if they can be counted. -/
theorem keeps_list {f : Spelling c} (pos : 0 < f.least) {vs : List α}
    (kept : ∀ v ∈ vs, f.Keeps v) (counted : vs.length < 1 <<< 64) : (f.list pos).Keeps vs := by
  rintro _ ⟨items, hitems, rfl⟩ rest
  rw [List.append_assoc]
  exact (Reader.bind_ok (read_writeCount counted _)).trans (f.times_of_keeps kept hitems rest)

/-- A list that was read could be counted, and its values were read. -/
theorem of_read_list {vs : List α} {bytes rest : ByteString}
    (h : c.list.read bytes = .ok (vs, rest)) :
    vs.length < 1 <<< 64 ∧ ∀ v ∈ vs, ∃ before after, c.read before = .ok (v, after) := by
  obtain ⟨count, middle, -, h⟩ := Reader.of_bind_ok h
  obtain ⟨hlength, htaken⟩ := Reader.of_times_ok h
  exact ⟨hlength ▸ count.val_lt, htaken⟩

namespace Stable

variable {f : Spelling c} {g : Spelling d}

/-- What has short spellings only is read from them. -/
theorem of_short (short : ∀ v bytes, f.Spells v bytes → bytes.length < 1 <<< 64) : f.Stable :=
  ⟨fun {v _ _} _ bytes h => f.read h (short v bytes h)⟩

/-- Values that correspond one to one to values of another type are read again as well. -/
theorem imap (h : f.Stable) (pack : α → β) (unpack : β → α) (inverse : ∀ b, pack (unpack b) = b)
    (reverse : ∀ v, unpack (pack v) = v) : (f.imap pack unpack inverse).Stable where
  keeps {w bytes rest} hread := by
    obtain ⟨v, hv, rfl⟩ := Reader.of_map_ok hread
    intro spelled hspelled after
    have hspelled : f.Spells (unpack (pack v)) spelled := hspelled
    rw [reverse] at hspelled
    exact Reader.map_ok (h.keeps hv spelled hspelled after) pack

/-- Two values in a row are read again if both are. -/
theorem pair (hf : f.Stable) (hg : g.Stable) : (f.pair g).Stable where
  keeps {v bytes rest} hread := by
    obtain ⟨x, middle, hx, hread⟩ := Reader.of_bind_ok hread
    obtain ⟨y, last, hy, hread⟩ := Reader.of_bind_ok hread
    cases hread
    rintro _ ⟨first, second, hfirst, hsecond, rfl⟩ after
    rw [List.append_assoc]
    exact (Reader.bind_ok (hf.keeps hx first hfirst _)).trans
      (Reader.bind_ok (hg.keeps hy second hsecond after))

/-- An optional value is read again if the value is. -/
theorem option (hf : f.Stable) : f.option.Stable where
  keeps {o bytes rest} hread := by
    obtain ⟨tag, middle, -, hread⟩ := Reader.of_bind_ok hread
    split at hread
    · cases hread
      rintro _ rfl after
      rfl
    · obtain ⟨v, hv, rfl⟩ := Reader.of_map_ok hread
      rintro _ ⟨spelled, hspelled, rfl⟩ after
      exact Reader.map_ok (hf.keeps hv spelled hspelled after) some
    · cases hread

/-- An alternative is read again if both sides are. -/
theorem either (hf : f.Stable) (hg : g.Stable) : (f.either g).Stable where
  keeps {v bytes rest} hread := by
    obtain ⟨index, middle, -, hread⟩ := Reader.of_bind_ok hread
    rcases index with ⟨_ | _ | index, hlt⟩
    · obtain ⟨x, hx, rfl⟩ := Reader.of_map_ok hread
      rintro _ ⟨spelled, hspelled, rfl⟩ after
      rw [List.append_assoc]
      refine (Reader.bind_ok (read_writeIndex (by decide) _)).trans ?_
      exact Reader.map_ok (hf.keeps hx spelled hspelled after) Sum.inl
    · obtain ⟨y, hy, rfl⟩ := Reader.of_map_ok hread
      rintro _ ⟨spelled, hspelled, rfl⟩ after
      rw [List.append_assoc]
      refine (Reader.bind_ok (read_writeIndex (by decide) _)).trans ?_
      exact Reader.map_ok (hg.keeps hy spelled hspelled after) Sum.inr
    · cases hread

/-- A list is read again if its values are: what was counted can be counted. -/
theorem list (hf : f.Stable) (pos : 0 < f.least) : (f.list pos).Stable where
  keeps hread := by
    obtain ⟨counted, htaken⟩ := of_read_list hread
    refine keeps_list pos (fun v hv => ?_) counted
    obtain ⟨before, after, hv⟩ := htaken v hv
    exact hf.keeps hv

/-- A text is read again, since its bytes were counted when it was read. -/
theorem text : Spelling.text.Stable where
  keeps {s bytes rest} hread := by
    obtain ⟨count, middle, -, hread⟩ := Reader.of_bind_ok hread
    have hlength := (Reader.of_text_ok hread).1
    rintro _ rfl after
    show Codec.text.read (Codec.writeCount _ ++ Utf8.encode s ++ after) = _
    rw [List.append_assoc]
    exact (Reader.bind_ok (read_writeCount (hlength ▸ count.val_lt) _)).trans
      (Reader.text_encode s after)

/-- An account is read again: the name that was read is that of the account. -/
theorem account : Spelling.account.Stable where
  keeps {a bytes rest} hread := by
    obtain ⟨name, middle, hname, hread⟩ := Reader.of_bind_ok hread
    rcases hnamed : Account.ofName? name with _ | named
    · simp only [hnamed] at hread
      cases hread
    · simp only [hnamed] at hread
      cases hread
      rintro _ rfl after
      have hspelled := Account.ofName?_eq_some_iff.1 hnamed ▸ text.keeps hname
      refine (Reader.bind_ok (hspelled _ rfl after)).trans ?_
      rw [Account.ofName?_name]
      rfl

section Sorted

variable [Ord κ] [Std.TransOrd κ] [Std.LawfulEqOrd κ] [DecidableEq κ] {k : Codec κ}

/-- **A map that was read is read again**, whatever was counted to make it. An entry that is left is
one of those that were read, though not each of those is left. -/
theorem map {f : Spelling k} (hf : f.Stable) (hg : g.Stable) (pos : 0 < f.least) :
    (f.map g pos).Stable where
  keeps {m bytes rest} hread := by
    obtain ⟨entries, hentries, rfl⟩ := Reader.of_map_ok hread
    obtain ⟨counted, htaken⟩ := of_read_list hentries
    rintro spelled ⟨kept, hperm, hspelled⟩ after
    have hcounted : kept.length < 1 <<< 64 := by
      refine Nat.lt_of_le_of_lt ?_ counted
      rw [hperm.length_eq, Std.ExtTreeMap.length_toList]
      exact Std.ExtTreeMap.size_ofList_le
    have hkeeps : ∀ entry ∈ kept, (f.pair g).Keeps entry := fun entry hentry => by
      obtain ⟨before, later, hentry⟩ :=
        htaken entry (SortedMap.mem_of_mem_toList_ofList (hperm.mem_iff.1 hentry))
      exact (hf.pair hg).keeps hentry
    have hlist := keeps_list (Nat.add_pos_left pos _) hkeeps hcounted
    have hmap := Reader.map_ok (hlist spelled hspelled after) (Std.ExtTreeMap.ofList ·)
    rwa [SortedMap.ofList_of_perm hperm] at hmap

/-- **A set that was read is read again.** An item that is left is one of those that were read, and
there are no more of them than were counted. -/
theorem set {f : Spelling k} (hf : f.Stable) (pos : 0 < f.least) : (f.set pos).Stable where
  keeps {s bytes rest} hread := by
    obtain ⟨items, hitems, rfl⟩ := Reader.of_map_ok hread
    obtain ⟨counted, htaken⟩ := of_read_list hitems
    rintro spelled ⟨kept, hperm, hspelled⟩ after
    have hcounted : kept.length < 1 <<< 64 := by
      refine Nat.lt_of_le_of_lt ?_ counted
      rw [hperm.length_eq, Std.ExtTreeSet.length_toList]
      exact Std.ExtTreeSet.size_ofList_le
    have hkeeps : ∀ item ∈ kept, f.Keeps item := fun item hitem => by
      have hmem := Std.ExtTreeSet.mem_toList.1 (hperm.mem_iff.1 hitem)
      rw [Std.ExtTreeSet.mem_ofList, List.contains_iff_mem] at hmem
      obtain ⟨before, later, hitem⟩ := htaken item hmem
      exact hf.keeps hitem
    have hlist := keeps_list pos hkeeps hcounted
    have hset := Reader.map_ok (hlist spelled hspelled after) (Std.ExtTreeSet.ofList ·)
    rwa [SortedSet.ofList_of_perm hperm] at hset

end Sorted

/-! ### Records -/

/-- A number has as many bytes as it is wide. -/
theorem quantity {width : Nat} (short : width < 1 <<< 64) : (Spelling.quantity width).Stable :=
  of_short <| by
    rintro q _ rfl
    exact (ByteString.length_littleEndian width q.val).symm ▸ short

/-- A word of eight bytes is read again. -/
theorem word : Spelling.word.Stable := quantity (by decide)

/-- An amount is read again. -/
theorem amount : Spelling.amount.Stable := quantity (by decide)

/-- Yes and no are spelled by one byte. -/
theorem bool : Spelling.bool.Stable := of_short <| by
  rintro b _ rfl
  cases b <;> decide

/-- Nothing is spelled by no byte. -/
theorem unit : Spelling.unit.Stable := of_short <| by
  rintro u _ rfl
  exact Nat.lt_of_le_of_lt (Nat.le_refl 0) (by decide)

/-- A byte is spelled by itself. -/
theorem byte : Spelling.byte.Stable := of_short <| by
  rintro b _ rfl
  exact Nat.lt_of_le_of_lt (Nat.le_refl 1) (by decide)

/-- A digest is spelled by 32 bytes. -/
theorem digest : Spelling.digest.Stable := of_short <| by
  rintro d _ rfl
  exact Nat.lt_of_le_of_lt (Nat.le_of_eq d.length_eq) (by decide)

/-- The side of a vote is spelled by its index. -/
theorem support : Spelling.support.Stable := of_short <| by
  rintro v _ rfl
  cases v <;> decide

/-- An instant is read again as its word is. -/
theorem timestamp : Spelling.timestamp.Stable := word.imap _ _ _ fun _ => rfl

/-- The number of a proposal is read again as its word is. -/
theorem proposalId : Spelling.proposalId.Stable := word.imap _ _ _ fun _ => rfl

/-- A row of bytes is read again as a list of them is. -/
theorem byteString : Spelling.byteString.Stable := byte.list _

/-- A record of parameters is read again, since its six fields are. -/
theorem parameters : Spelling.parameters.Stable :=
  (word.pair (word.pair (amount.pair (amount.pair (word.pair word))))).imap _ _ _ fun _ => rfl

/-- A target is read again, whichever of the two kinds it is. -/
theorem target : Spelling.target.Stable :=
  (unit.either account).imap _ _ _ fun v => by cases v <;> rfl

/-- A tally is read again, since its three columns are. -/
theorem tally : Spelling.tally.Stable :=
  (amount.pair (amount.pair amount)).imap _ _ _ fun _ => rfl

/-- A vote is read again, since its four fields are. -/
theorem vote : Spelling.vote.Stable :=
  (support.pair (amount.pair (text.pair timestamp))).imap _ _ _ fun _ => rfl

/-- A proposal is read again, since its fifteen fields are. -/
theorem proposal : Spelling.proposal.Stable :=
  (proposalId.pair (text.pair (text.pair (account.pair (target.pair (byteString.pair
    (amount.pair (digest.pair (tally.pair (timestamp.pair (timestamp.pair (timestamp.pair
      (bool.pair (bool.pair timestamp.option)))))))))))))).imap _ _ _ fun _ => rfl

/-- A delegation is read again, since its two fields are. -/
theorem delegation : Spelling.delegation.Stable :=
  (account.pair timestamp).imap _ _ _ fun _ => rfl

/-- A history is read again if the values in it are. -/
theorem history {value : Codec α} {f : Spelling value} (h : f.Stable) :
    (Spelling.history f).Stable :=
  (((timestamp.pair h).imap _ _ _ fun _ => rfl).list _).imap _ _ _ fun _ => rfl

/-- A ledger is read again as the map of its histories is. -/
theorem ledger : Spelling.ledger.Stable :=
  (account.map (history amount) _).imap _ _ _ fun _ => rfl

/-- **A directory is read again**, since its four tables are. -/
theorem directory : Spelling.directory.Stable :=
  ((account.map delegation _).pair ((account.map (history account) _).pair
    ((account.map (account.set _) _).pair ledger))).imap _ _ _ fun _ => rfl

/-- **A vote book is read again** as a map of maps. -/
theorem voteBook : Spelling.voteBook.Stable :=
  (proposalId.map (account.map vote _) _).imap _ _ _ fun _ => rfl

end Stable
end Spelling
end Binary
end TokenGovernance
