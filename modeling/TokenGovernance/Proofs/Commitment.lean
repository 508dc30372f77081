/-
# What a digest commits to

The bytes that are hashed for a list of fields tell the fields apart: the length in front of a
field says where the field ends, so what follows it cannot be taken for a part of it
(`Digest.of_framed_append`). Nothing more is needed for a draft, since each of its fields is
written as no other value of its kind is:

| field | told by |
| --- | --- |
| title, description | their UTF-8 bytes, which are read back |
| target | its words; those for the parameter store are no name of an account |
| payload | its bytes |
| value | sixteen bytes, which hold every amount |

So a draft can be read off what is hashed for it, and two drafts with one digest are one draft or
make a collision of the hash (`Draft.eq_or_collision`). A length is written in eight bytes, so this
is said of fields that are shorter than these can tell, as any that is held in memory is.
-/

import TokenGovernance.Proofs.Utf8
import TokenGovernance.Proposal.Basic

namespace TokenGovernance

/-- A word of `width` bytes tells the numbers that fit into it apart. -/
theorem ByteString.eq_of_littleEndian_eq {width m n : Nat} (hm : m < 1 <<< (8 * width))
    (hn : n < 1 <<< (8 * width)) (h : littleEndian width m = littleEndian width n) : m = n := by
  rw [← ofLittleEndian_littleEndian hm, h, ofLittleEndian_littleEndian hn]

/-- A text is told by its bytes. -/
theorem Utf8.eq_of_encode_eq {s t : String} (h : encode s = encode t) : s = t := by
  have hs := decode_encode s
  rw [h, decode_encode] at hs
  exact (Except.ok.inj hs).symm

/-- Two inputs with one hash. -/
def Blake2b.Collision (x y : ByteString) : Prop := x ≠ y ∧ hash x = hash y

namespace Digest

/-- The length of every field fits into the word in front of it. -/
def Framable (fields : List ByteString) : Prop := ∀ field ∈ fields, field.length < 1 <<< 64

instance (fields : List ByteString) : Decidable (Framable fields) :=
  inferInstanceAs (Decidable (∀ field ∈ fields, field.length < 1 <<< 64))

variable {x y rest rest' : ByteString} {xs ys : List ByteString}

/-- Not even an empty field is hashed as nothing: its length is written. -/
theorem framed_ne_nil (x : ByteString) : framed x ≠ [] := by
  intro h
  have hlength := congrArg List.length h
  rw [framed, List.length_append, ByteString.length_littleEndian, List.length_nil] at hlength
  omega

/-- **The length in front of a field says where it ends.** -/
theorem of_framed_append (hx : x.length < 1 <<< 64) (hy : y.length < 1 <<< 64)
    (h : framed x ++ rest = framed y ++ rest') : x = y ∧ rest = rest' := by
  simp only [framed, List.append_assoc] at h
  obtain ⟨hword, htail⟩ := List.append_inj h (by
    rw [ByteString.length_littleEndian, ByteString.length_littleEndian])
  have hlength : x.length = y.length := ByteString.eq_of_littleEndian_eq hx hy hword
  exact List.append_inj htail hlength

/-- **The fields are told by what is hashed for them**, one by one; a list that goes on is not
hashed like one that ends. -/
theorem eq_of_preimage_eq (hx : Framable xs) (hy : Framable ys) (h : preimage xs = preimage ys) :
    xs = ys := by
  have nonempty (z : ByteString) (zs : List ByteString) : preimage (z :: zs) ≠ [] := by
    rw [preimage, List.flatMap_cons]
    exact List.append_ne_nil_of_left_ne_nil (framed_ne_nil z) _
  induction xs generalizing ys with
  | nil =>
    cases ys with
    | nil => rfl
    | cons y ys => exact absurd h.symm (nonempty y ys)
  | cons x xs ih =>
    cases ys with
    | nil => exact absurd h (nonempty x xs)
    | cons y ys =>
      simp only [preimage, List.flatMap_cons] at h
      obtain ⟨rfl, hrest⟩ := of_framed_append (hx x List.mem_cons_self) (hy y List.mem_cons_self) h
      rw [ih (fun z hz => hx z (List.mem_cons_of_mem _ hz))
        (fun z hz => hy z (List.mem_cons_of_mem _ hz)) hrest]

end Digest

/-- **No account has the name of the parameter store.** -/
theorem Target.render_external_ne (account : Account) :
    (external account).render ≠ parameterStore.render := by
  intro h
  have hname := account.isName_name
  rw [show account.name = "parameter-store" from h] at hname
  exact absurd hname (by decide)

/-- A target is told by its words. -/
theorem Target.eq_of_render_eq {s t : Target} (h : s.render = t.render) : s = t := by
  cases s with
  | parameterStore =>
    cases t with
    | parameterStore => rfl
    | external b => exact absurd h.symm (render_external_ne b)
  | external a =>
    cases t with
    | parameterStore => exact absurd h (render_external_ne a)
    | external b => exact congrArg external (Account.ext h)

namespace Draft

variable {d d' : Draft}

/-- **A draft is told by its fields.** -/
theorem eq_of_fields_eq (h : d.fields = d'.fields) : d = d' := by
  obtain ⟨title, description, target, payload, value⟩ := d
  obtain ⟨title', description', target', payload', value'⟩ := d'
  simp only [fields, List.cons.injEq, and_true] at h
  obtain ⟨htitle, hdescription, htarget, hpayload, hword⟩ := h
  have hvalue : value.val = value'.val :=
    @ByteString.eq_of_littleEndian_eq 16 _ _ value.val_lt value'.val_lt hword
  rw [Utf8.eq_of_encode_eq htitle, Utf8.eq_of_encode_eq hdescription,
    Target.eq_of_render_eq (Utf8.eq_of_encode_eq htarget), hpayload,
    Quantity.ext hvalue]

/-- A draft is told by what is hashed for it. -/
theorem eq_of_preimage_eq (hd : Digest.Framable d.fields) (hd' : Digest.Framable d'.fields)
    (h : Digest.preimage d.fields = Digest.preimage d'.fields) : d = d' :=
  eq_of_fields_eq (Digest.eq_of_preimage_eq hd hd' h)

/-- **A digest commits to the whole draft.** What is hashed for a list of fields tells the list, of
whatever length, and what is hashed for a draft tells the draft; in particular no outside target is
hashed like the parameter store. So two drafts with one digest are the same draft, or what was
hashed for them is a collision of the hash. -/
theorem eq_or_collision :
    (∀ xs ys, Digest.Framable xs → Digest.Framable ys →
      Digest.preimage xs = Digest.preimage ys → xs = ys) ∧
    (∀ d d' : Draft, Digest.Framable d.fields → Digest.Framable d'.fields →
      Digest.preimage d.fields = Digest.preimage d'.fields → d = d') ∧
    (∀ account, Utf8.encode (Target.external account).render ≠
      Utf8.encode Target.parameterStore.render) ∧
    ∀ d d' : Draft, Digest.Framable d.fields → Digest.Framable d'.fields →
      d.contentHash = d'.contentHash →
      d = d' ∨ Blake2b.Collision (Digest.preimage d.fields) (Digest.preimage d'.fields) := by
  refine ⟨fun xs ys => Digest.eq_of_preimage_eq, fun d d' => eq_of_preimage_eq,
    fun account h => Target.render_external_ne account (Utf8.eq_of_encode_eq h),
    fun d d' hd hd' hhash => ?_⟩
  by_cases hsame : Digest.preimage d.fields = Digest.preimage d'.fields
  · exact .inl (eq_of_preimage_eq hd hd' hsame)
  · exact .inr ⟨hsame, congrArg Digest.bytes hhash⟩

/-- A byte that moves to the next field is hashed differently, and so is a draft whose target is
named nearly like the parameter store; a digest with itself gives no collision. -/
theorem eq_or_collision_of_names :
    let named : Account := ⟨"civ_parameter-store", by decide⟩
    let outside : Draft := ⟨"räise", "", .external named, [1], .zero⟩
    let inside : Draft := { outside with target := .parameterStore }
    Digest.preimage [[97, 98], [99]] ≠ Digest.preimage [[97], [98, 99]] ∧
      Digest.preimage outside.fields ≠ Digest.preimage inside.fields ∧
      (inside = inside ∨
        Blake2b.Collision (Digest.preimage inside.fields) (Digest.preimage inside.fields)) := by
  intro named outside inside
  obtain ⟨hlists, hdrafts, -, hdigests⟩ := eq_or_collision
  have houtside : Digest.Framable outside.fields := by decide
  have hinside : Digest.Framable inside.fields := by decide
  refine ⟨fun h => ?_, fun h => ?_, hdigests inside inside hinside hinside rfl⟩
  · exact absurd (hlists _ _ (by decide) (by decide) h) (by decide)
  · exact absurd (hdrafts outside inside houtside hinside h) (by decide)

end Draft
end TokenGovernance
