/-
# Nothing else can be read

What spells a value is read as it. For the records without maps or sets the converse holds as well:
a row of bytes is read as a value only if it begins with what is written for the value
(`Codec.Strict`). Each part refuses what it does not write, and a record is as strict as its parts:

| codec | refuses |
| --- | --- |
| number | fewer bytes than it has |
| yes or no, optional value | a byte that is neither 0 nor 1 |
| alternative | an index that no alternative has |
| text | a count beyond the end, bytes that are not UTF-8 |
| account | a text that names none |
| list | fewer items than it counts |

Both directions make a format exact (`Codec.Exact`): the bytes that are accepted are those of a
value and then anything, no two values share theirs, and none may end early.
-/

import TokenGovernance.Proofs.Binary.Records

namespace TokenGovernance
namespace Binary

variable {α β : Type}

namespace Reader

variable {reader : Reader α} {k : α → Reader β} {bytes rest : ByteString} {w : β}

/-- What two readers in a row have taken, the first took up to a place, and the second from there
on. -/
theorem of_bind_ok (h : (reader >>= k) bytes = .ok (w, rest)) :
    ∃ v middle, reader bytes = .ok (v, middle) ∧ k v middle = .ok (w, rest) := by
  have h : (reader bytes >>= fun p => k p.1 p.2) = .ok (w, rest) := h
  rcases hr : reader bytes with why | ⟨v, middle⟩
  · rw [hr] at h
    cases h
  · rw [hr] at h
    exact ⟨v, middle, rfl, h⟩

/-- What is found under another name was found. -/
theorem of_map_ok {f : α → β} (h : (f <$> reader) bytes = .ok (w, rest)) :
    ∃ v, reader bytes = .ok (v, rest) ∧ f v = w := by
  have h : (reader bytes >>= fun p => pure (f p.1, p.2)) = .ok (w, rest) := h
  rcases hr : reader bytes with why | ⟨v, middle⟩
  · rw [hr] at h
    cases h
  · rw [hr] at h
    cases h
    exact ⟨v, rfl, rfl⟩

/-- The bytes of a number are those that are taken for it. -/
theorem of_quantity_ok {width : Nat} {q : Quantity (8 * width)}
    (h : quantity width bytes = .ok (q, rest)) :
    bytes = ByteString.littleEndian width q.val ++ rest := by
  unfold quantity at h
  split at h
  · rename_i henough
    cases h
    have hword := ByteString.littleEndian_ofLittleEndian (bytes.take width)
    rw [List.length_take_of_le henough] at hword
    rw [hword, List.take_append_drop]
  · cases h

/-- The bytes of a text are those that are taken for it. -/
theorem of_text_ok {count : Nat} {s : String} (h : text count bytes = .ok (s, rest)) :
    (Utf8.encode s).length = count ∧ bytes = Utf8.encode s ++ rest := by
  unfold text at h
  split at h
  · cases h
  · rename_i henough
    split at h
    · rename_i s' hdecoded
      cases h
      rw [Utf8.encode_decode hdecoded, List.take_append_drop]
      exact ⟨List.length_take_of_le (Nat.le_of_not_lt henough), rfl⟩
    · cases h

end Reader

namespace Codec

variable {c : Codec α} {d : Codec β}

/-- **What is read was written**: the bytes that are taken from the front are those of the value. -/
structure Strict (c : Codec α) : Prop where
  eq_append : ∀ {v : α} {bytes rest : ByteString}, c.read bytes = .ok (v, rest) →
    bytes = c.write v ++ rest

/-- **A format that accepts the bytes of its values, each followed by anything, and nothing else.**
Rows of bytes are shorter than a count can tell, as any that is held in memory is. -/
structure Exact (c : Codec α) : Prop where
  /-- A value is read back from its bytes, whatever follows them. -/
  decode_write : ∀ (v : α) (rest : ByteString), (c.write v).length < 1 <<< 64 →
    c.decode (c.write v ++ rest) = .ok v
  /-- Bytes that are read as a value begin with those of the value. -/
  write_prefix : ∀ (bytes : ByteString) (v : α), c.decode bytes = .ok v → c.write v <+: bytes
  /-- No two values share their bytes. -/
  write_injective : ∀ v w : α, (c.write v).length < 1 <<< 64 → c.write v = c.write w → v = w
  /-- The bytes of a value are refused when they end early. -/
  truncated : ∀ (v : α) (bytes : ByteString), (c.write v).length < 1 <<< 64 →
    bytes <+: c.write v → bytes ≠ c.write v → ∃ why, c.decode bytes = .error why

/-! ### Strict readers -/

namespace Strict

/-- Values that correspond one to one to values of another type are read as strictly. -/
theorem imap (h : c.Strict) (pack : α → β) (unpack : β → α) (inverse : ∀ v, unpack (pack v) = v) :
    (c.imap pack unpack).Strict where
  eq_append {w bytes rest} hread := by
    obtain ⟨v, hv, rfl⟩ := Reader.of_map_ok hread
    show bytes = c.write (unpack (pack v)) ++ rest
    rw [inverse]
    exact h.eq_append hv

/-- A number is read from the bytes of its word alone. -/
theorem quantity (width : Nat) : (Codec.quantity width).Strict := ⟨Reader.of_quantity_ok⟩

/-- A byte is read from itself alone. -/
theorem byte : Codec.byte.Strict where
  eq_append {b bytes rest} h := by
    cases bytes with
    | nil => cases h
    | cons first bytes =>
      cases h
      rfl

/-- Yes and no have one byte each, and no other byte is either. -/
theorem bool : Codec.bool.Strict where
  eq_append {b bytes rest} h := by
    obtain ⟨tag, middle, htag, h⟩ := Reader.of_bind_ok h
    rw [byte.eq_append htag]
    split at h <;> cases h <;> rfl

/-- Nothing is read from no byte. -/
theorem unit : Codec.unit.Strict where
  eq_append {v bytes rest} h := by
    cases h
    rfl

/-- Two values in a row are read as strictly as both. -/
theorem pair (hc : c.Strict) (hd : d.Strict) : (c.pair d).Strict where
  eq_append {v bytes rest} h := by
    obtain ⟨x, middle, hx, h⟩ := Reader.of_bind_ok h
    obtain ⟨y, last, hy, h⟩ := Reader.of_bind_ok h
    cases h
    rw [hc.eq_append hx, hd.eq_append hy]
    exact (List.append_assoc ..).symm

/-- An optional value is read as strictly as the value: it has one byte for each case. -/
theorem option (hc : c.Strict) : c.option.Strict where
  eq_append {o bytes rest} h := by
    obtain ⟨tag, middle, htag, h⟩ := Reader.of_bind_ok h
    rw [byte.eq_append htag]
    split at h
    · cases h
      rfl
    · obtain ⟨v, hv, rfl⟩ := Reader.of_map_ok h
      rw [hc.eq_append hv]
      rfl
    · cases h

/-- An enumeration is read strictly if it has no value twice, since the index then tells the
value. -/
theorem enumeration [DecidableEq α] {values : List α} (distinct : values.Nodup) :
    (Codec.enumeration values).Strict where
  eq_append {v bytes rest} h := by
    obtain ⟨index, middle, hindex, h⟩ := Reader.of_bind_ok h
    rcases hw : values[index.val]? with _ | w
    · simp only [hw] at h
      cases h
    · simp only [hw] at h
      cases h
      obtain ⟨hlt, rfl⟩ := List.getElem?_eq_some_iff.1 hw
      show bytes = writeIndex (values.idxOf values[index.val]) ++ rest
      rw [distinct.idxOf_getElem]
      exact Reader.of_quantity_ok hindex

/-- An alternative is read as strictly as both sides: it has one index for each. -/
theorem either (hc : c.Strict) (hd : d.Strict) : (c.either d).Strict where
  eq_append {v bytes rest} h := by
    obtain ⟨index, middle, hindex, h⟩ := Reader.of_bind_ok h
    rw [Reader.of_quantity_ok hindex]
    rcases index with ⟨_ | _ | index, hlt⟩
    · obtain ⟨x, hx, rfl⟩ := Reader.of_map_ok h
      rw [hc.eq_append hx]
      exact (List.append_assoc ..).symm
    · obtain ⟨y, hy, rfl⟩ := Reader.of_map_ok h
      rw [hd.eq_append hy]
      exact (List.append_assoc ..).symm
    · cases h

/-- Values that are read one after the other were written one after the other. -/
theorem times (hc : c.Strict) {count : Nat} {vs : List α} {bytes rest : ByteString}
    (h : Reader.times c.read count bytes = .ok (vs, rest)) :
    vs.length = count ∧ bytes = vs.flatMap c.write ++ rest := by
  induction count generalizing vs bytes with
  | zero =>
    cases h
    exact ⟨rfl, rfl⟩
  | succ count ih =>
    obtain ⟨first, middle, hfirst, h⟩ := Reader.of_bind_ok h
    obtain ⟨others, last, hothers, h⟩ := Reader.of_bind_ok h
    cases h
    obtain ⟨hlength, hmiddle⟩ := ih hothers
    refine ⟨congrArg Nat.succ hlength, ?_⟩
    rw [hc.eq_append hfirst, hmiddle, List.flatMap_cons, List.append_assoc]

/-- A list is read as strictly as its values: the count is that of what follows. -/
theorem list (hc : c.Strict) : c.list.Strict where
  eq_append {vs bytes rest} h := by
    obtain ⟨count, middle, hcount, h⟩ := Reader.of_bind_ok h
    obtain ⟨hlength, hmiddle⟩ := hc.times h
    rw [Reader.of_quantity_ok hcount, ← hlength, hmiddle]
    exact (List.append_assoc ..).symm

/-- A text is read from its count and its UTF-8 bytes alone. -/
theorem text : Codec.text.Strict where
  eq_append {s bytes rest} h := by
    obtain ⟨count, middle, hcount, h⟩ := Reader.of_bind_ok h
    obtain ⟨hlength, hmiddle⟩ := Reader.of_text_ok h
    rw [Reader.of_quantity_ok hcount, ← hlength, hmiddle]
    exact (List.append_assoc ..).symm

/-- An account is read from the text of its name alone. -/
theorem account : Codec.account.Strict where
  eq_append {a bytes rest} h := by
    obtain ⟨name, middle, hname, h⟩ := Reader.of_bind_ok h
    rcases hnamed : Account.ofName? name with _ | named
    · simp only [hnamed] at h
      cases h
    · simp only [hnamed] at h
      cases h
      show bytes = Codec.text.write a.name ++ rest
      rw [Account.ofName?_eq_some_iff.1 hnamed]
      exact text.eq_append hname

/-! ### Records -/

/-- A word of eight bytes is read strictly. -/
theorem word : Codec.word.Strict := quantity 8

/-- An amount is read strictly. -/
theorem amount : Codec.amount.Strict := quantity 16

/-- An instant is read as strictly as its word. -/
theorem timestamp : Codec.timestamp.Strict := word.imap _ _ fun _ => rfl

/-- The number of a proposal is read as strictly as its word. -/
theorem proposalId : Codec.proposalId.Strict := word.imap _ _ fun _ => rfl

/-- A digest is read from its 32 bytes alone. -/
theorem digest : Codec.digest.Strict where
  eq_append {d bytes rest} h := by
    have h : (if h : 32 ≤ bytes.length then _ else _) = Except.ok (d, rest) := h
    split at h
    · cases h
      exact (List.take_append_drop 32 bytes).symm
    · cases h

/-- A row of bytes is read as strictly as a list of them. -/
theorem byteString : Codec.byteString.Strict := byte.list

/-- A record of parameters is read as strictly as its six fields. -/
theorem parameters : Codec.parameters.Strict :=
  (word.pair (word.pair (amount.pair (amount.pair (word.pair word))))).imap _ _ fun _ => rfl

/-- No parameter is named by two indices. -/
theorem parameter : Codec.parameter.Strict := enumeration (by decide)

/-- An amendment is read as strictly as the two kinds there are. -/
theorem amendment : Codec.amendment.Strict :=
  (parameters.either (parameter.pair amount)).imap _ _ fun v => by cases v <;> rfl

/-- A target is read as strictly as the two kinds there are. -/
theorem target : Codec.target.Strict :=
  (unit.either account).imap _ _ fun v => by cases v <;> rfl

/-- No side of a vote is named by two indices. -/
theorem support : Codec.support.Strict := enumeration (by decide)

/-- No phase is named by two indices. -/
theorem phase : Codec.phase.Strict := enumeration (by decide)

/-- A tally is read as strictly as its three columns. -/
theorem tally : Codec.tally.Strict := (amount.pair (amount.pair amount)).imap _ _ fun _ => rfl

/-- A vote is read as strictly as its four fields. -/
theorem vote : Codec.vote.Strict :=
  (support.pair (amount.pair (text.pair timestamp))).imap _ _ fun _ => rfl

/-- **A proposal is read as strictly as its fifteen fields**, in their order. -/
theorem proposal : Codec.proposal.Strict :=
  (proposalId.pair (text.pair (text.pair (account.pair (target.pair (byteString.pair
    (amount.pair (digest.pair (tally.pair (timestamp.pair (timestamp.pair (timestamp.pair
      (bool.pair (bool.pair timestamp.option)))))))))))))).imap _ _ fun _ => rfl

/-- A delegation is read as strictly as its two fields. -/
theorem delegation : Codec.delegation.Strict := (account.pair timestamp).imap _ _ fun _ => rfl

/-- A history is read as strictly as the values in it. -/
theorem history {value : Codec α} (h : value.Strict) : (Codec.history value).Strict :=
  ((timestamp.pair h).imap _ _ fun _ => rfl).list.imap _ _ fun _ => rfl

/-- A configuration is read as strictly as its two fields. -/
theorem config : Codec.config.Strict := (account.pair parameters).imap _ _ fun _ => rfl

end Strict

/-! ### Exact formats -/

/-- **A format is exact if what is written can be read and nothing else can.** Bytes that end early
cannot: they would begin with those of another value, which would begin those of the first. -/
theorem exact_of_strict (f : Spelling c) (h : c.Strict) : c.Exact := by
  have decoded (v : α) (rest : ByteString) (short : (c.write v).length < 1 <<< 64) :
      c.decode (c.write v ++ rest) = .ok v := by
    rw [decode, f.read (f.spells_write v) short rest]
    rfl
  have begins (bytes : ByteString) (v : α) (hv : c.decode bytes = .ok v) :
      c.write v <+: bytes := by
    rw [decode] at hv
    rcases hread : c.read bytes with why | ⟨w, rest⟩
    · rw [hread] at hv
      cases hv
    · rw [hread] at hv
      cases hv
      exact ⟨rest, (h.eq_append hread).symm⟩
  have injective (v w : α) (short : (c.write v).length < 1 <<< 64) (same : c.write v = c.write w) :
      v = w := by
    have hv := decoded v [] short
    have hw := decoded w [] (same ▸ short)
    rw [same, hw] at hv
    exact (Except.ok.inj hv).symm
  refine ⟨decoded, begins, injective, fun v bytes short early ne => ?_⟩
  rcases hread : c.decode bytes with why | w
  · exact ⟨why, rfl⟩
  · exfalso
    have hw := begins bytes w hread
    obtain ⟨rest, hrest⟩ := hw.trans early
    have hv := decoded v [] short
    rw [List.append_nil, ← hrest,
      decoded w rest (Nat.lt_of_le_of_lt (hw.trans early).length_le short)] at hv
    cases hv
    exact ne (early.eq_of_length_le hw.length_le)

/-- An amendment is written in few bytes. -/
theorem length_write_amendment (a : Amendment) : (amendment.write a).length < 1 <<< 64 := by
  cases a <;> simp [amendment, parameters, parameter, amount, word, quantity, pair, either, imap,
    enumeration, writeIndex]

/-- **The binary format is exact.** Accounts, amounts, instants, numbers of proposals, digests, the
parameters and their names, amendments, targets, sides, phases, tallies, votes, proposals,
delegations, histories of delegates and configurations are each read back from their bytes in front
of anything, and what is read as one of them begins with its bytes. So no two of a kind share their
bytes, and none is read from bytes that end early. The payload of a proposal stands for the
amendment whose bytes it begins with, and for no other. -/
theorem exact_records :
    account.Exact ∧ amount.Exact ∧ timestamp.Exact ∧ proposalId.Exact ∧ digest.Exact ∧
    parameters.Exact ∧ parameter.Exact ∧ amendment.Exact ∧ target.Exact ∧ support.Exact ∧
    phase.Exact ∧ tally.Exact ∧ vote.Exact ∧ proposal.Exact ∧ delegation.Exact ∧
    (history account).Exact ∧ config.Exact ∧
    ∀ (payload : ByteString) (a : Amendment),
      Amendment.decode payload = .ok a ↔ amendment.write a <+: payload := by
  have hamendment : amendment.Exact := exact_of_strict .amendment .amendment
  refine ⟨exact_of_strict .account .account, exact_of_strict .amount .amount,
    exact_of_strict .timestamp .timestamp, exact_of_strict .proposalId .proposalId,
    exact_of_strict .digest .digest, exact_of_strict .parameters .parameters,
    exact_of_strict .parameter .parameter, hamendment, exact_of_strict .target .target,
    exact_of_strict .support .support, exact_of_strict .phase .phase,
    exact_of_strict .tally .tally, exact_of_strict .vote .vote,
    exact_of_strict .proposal .proposal, exact_of_strict .delegation .delegation,
    exact_of_strict (.history .account) (.history .account), exact_of_strict .config .config,
    fun payload a => Amendment.decode_eq_ok_iff.trans ⟨hamendment.write_prefix payload a, ?_⟩⟩
  rintro ⟨rest, rfl⟩
  exact hamendment.decode_write a rest (length_write_amendment a)

/-- A proposal in front of two more bytes is read, one whose last byte is missing is refused, and a
payload that goes on after an amendment stands for it. -/
theorem exact_records_of_proposal :
    let alice : Account := ⟨"civ_älice", by decide⟩
    let a : Amendment := .set .votingPeriod ⟨1, by decide⟩
    let draft : Draft := ⟨"hürry", "", .parameterStore, amendment.write a ++ [0], .zero⟩
    let p : Proposal := { draft with
      id := .first
      proposer := alice
      contentHash := draft.contentHash
      tally := {}
      createdAt := ⟨⟨2, by decide⟩⟩
      startTime := ⟨⟨3, by decide⟩⟩
      endTime := ⟨⟨4, by decide⟩⟩
      executed := false
      canceled := false
      armedAt := some ⟨⟨5, by decide⟩⟩ }
    proposal.decode (proposal.write p ++ [7, 7]) = .ok p ∧
      (∃ why, proposal.decode (proposal.write p).dropLast = .error why) ∧
      Amendment.decode p.payload = .ok a := by
  intro alice a draft p
  obtain ⟨-, -, -, -, -, -, -, -, -, -, -, -, -, hproposal, -, -, -, hpayload⟩ := exact_records
  have hshort : (proposal.write p).length < 1 <<< 64 := by decide +kernel
  have hlast : (proposal.write p).dropLast ≠ proposal.write p := by decide +kernel
  exact ⟨hproposal.decode_write p [7, 7] hshort,
    hproposal.truncated p _ hshort (List.dropLast_prefix _) hlast,
    (hpayload _ a).2 (List.prefix_append _ _)⟩

end Codec
end Binary
end TokenGovernance
