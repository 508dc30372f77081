/-
# Digests of content

A digest commits to a list of fields. Each field is written as its length, a word of eight bytes,
and then its bytes, so that moving a byte from one field to the next changes what is hashed; the
hash is BLAKE2b with 32 bytes.
-/

import TokenGovernance.Digest.Blake2b

namespace TokenGovernance

/-- A digest of 32 bytes. -/
structure Digest where
  /-- The bytes of the digest. -/
  bytes : ByteString
  /-- A digest has 32 bytes. -/
  length_eq : bytes.length = 32
deriving DecidableEq

namespace Digest

/-- Two digests of the same bytes are one digest: the length carries nothing more. -/
@[ext] theorem ext {a b : Digest} (h : a.bytes = b.bytes) : a = b := by
  cases a; cases b; simp_all

/-- What is hashed for one field: its length and its bytes. -/
def framed (field : ByteString) : ByteString :=
  ByteString.littleEndian 8 field.length ++ field

/-- What is hashed for a list of fields. -/
def preimage (fields : List ByteString) : ByteString := fields.flatMap framed

/-- The digest of a list of fields. -/
def ofFields (fields : List ByteString) : Digest :=
  ⟨Blake2b.hash (preimage fields), Blake2b.length_hash _⟩

/-- Whether every byte is zero. -/
def isZero (d : Digest) : Bool := d.bytes.all (· == 0)

/-- The whole digest in hexadecimal. -/
def render (d : Digest) : String := d.bytes.hex

/-- A short form for messages: the first four bytes. -/
def renderBrief (d : Digest) : String := "ContentHash(" ++ ByteString.hex (d.bytes.take 4) ++ ")"

end Digest
end TokenGovernance
