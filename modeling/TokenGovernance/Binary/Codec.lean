/-
# The binary format: numbers, tags and collections

A `Codec` writes a value as bytes and reads one from the front of a row of bytes, leaving the rest.
Nothing in the format says where a value ends but the value itself:

| value | bytes |
| --- | --- |
| number | little-endian, of fixed width |
| yes or no | one byte, 0 or 1 |
| optional value | one byte, 0 or 1, and the value after a 1 |
| alternative | its index, four bytes, then its content |
| text, list, map, set | a count, eight bytes, then the bytes or the items |
| record | its fields in order |

Maps and sets are written in order of their keys. They are read in any order, and of two items with
the same key the later one counts.
-/

import Std.Data.ExtTreeMap
import Std.Data.ExtTreeSet
import TokenGovernance.Account
import TokenGovernance.ByteString
import TokenGovernance.Quantity
import TokenGovernance.Text.Utf8

namespace TokenGovernance
namespace Binary

/-- Why bytes are not an encoding. -/
inductive Fault where
  /-- The bytes end inside a number, a tag or a list. -/
  | endOfInput
  /-- A text counts more bytes than there are. -/
  | textTooLong
  /-- The index of an alternative out of `count`. -/
  | badVariant (index count : Nat)
  /-- A yes or no is neither. -/
  | badBool (byte : UInt8)
  /-- An optional value is neither there nor missing. -/
  | badOption (byte : UInt8)
  /-- A text is not UTF-8. -/
  | badText (why : Utf8.Fault)
  /-- A text names no account. -/
  | badAccount (text : String)
deriving DecidableEq

/-- What is said of bytes that are not an encoding. -/
def Fault.message : Fault → String
  | .endOfInput => "io error: unexpected end of file"
  | .textTooLong => "io error: "
  | .badVariant index count =>
    s!"invalid value: integer `{index}`, expected variant index 0 <= i < {count}"
  | .badBool byte => s!"invalid u8 while decoding bool, expected 0 or 1, found {byte.toNat}"
  | .badOption byte => s!"tag for enum is not valid, found {byte.toNat}"
  | .badText why => "string is not valid utf8: " ++ why.message
  | .badAccount text => Account.malformedMessage text

/-- Takes a value from the front of a row of bytes. -/
abbrev Reader (α : Type) := StateT ByteString (Except Fault) α

namespace Reader

/-- Takes one byte. -/
def byte : Reader UInt8 := fun
  | [] => .error .endOfInput
  | b :: rest => .ok (b, rest)

/-- Takes a number of `width` bytes. -/
def quantity (width : Nat) : Reader (Quantity (8 * width)) := fun bytes =>
  if h : width ≤ bytes.length then
    .ok (⟨ByteString.ofLittleEndian (bytes.take width), by
      have := ByteString.ofLittleEndian_lt (bytes.take width)
      rwa [List.length_take_of_le h] at this⟩,
      bytes.drop width)
  else .error .endOfInput

/-- Takes `count` values one after the other. -/
def times {α : Type} (reader : Reader α) : (count : Nat) → Reader (List α)
  | 0 => return []
  | count + 1 => do
    let first ← reader
    let rest ← times reader count
    return first :: rest

/-- Takes the UTF-8 bytes of a text, `count` of them. -/
def text (count : Nat) : Reader String := fun bytes =>
  if bytes.length < count then .error .textTooLong
  else
    match Utf8.decode (bytes.take count) with
    | .ok s => .ok (s, bytes.drop count)
    | .error why => .error (.badText why)

end Reader

/-- A way to write values of a type as bytes and to read them back. -/
structure Codec (α : Type) where
  /-- The bytes of a value. -/
  write : α → ByteString
  /-- Takes a value from the front of a row of bytes. -/
  read : Reader α

namespace Codec

variable {α β κ : Type}

/-- The value at the front of a row of bytes; what follows it is ignored. -/
def decode (c : Codec α) (bytes : ByteString) : Except Fault α := (c.read bytes).map Prod.fst

/-- Values that correspond to values of another type are written as those. -/
def imap (c : Codec α) (pack : α → β) (unpack : β → α) : Codec β where
  write b := c.write (unpack b)
  read := pack <$> c.read

/-- A number of `width` bytes. -/
def quantity (width : Nat) : Codec (Quantity (8 * width)) where
  write q := ByteString.littleEndian width q.val
  read := Reader.quantity width

/-- A number of eight bytes. -/
def word : Codec (Quantity 64) := quantity 8

/-- A single byte. -/
def byte : Codec UInt8 where
  write b := [b]
  read := Reader.byte

/-- Yes or no. -/
def bool : Codec Bool where
  write b := [if b then 1 else 0]
  read := do
    match ← Reader.byte with
    | 0 => return false
    | 1 => return true
    | b => throw (.badBool b)

/-- Nothing, in no bytes. -/
def unit : Codec Unit where
  write _ := []
  read := return ()

/-- Two values, one after the other. -/
def pair (a : Codec α) (b : Codec β) : Codec (α × β) where
  write v := a.write v.1 ++ b.write v.2
  read := do
    let x ← a.read
    let y ← b.read
    return (x, y)

/-- A value that may be missing. -/
def option (c : Codec α) : Codec (Option α) where
  write
    | none => [0]
    | some v => 1 :: c.write v
  read := do
    match ← Reader.byte with
    | 0 => return none
    | 1 => some <$> c.read
    | b => throw (.badOption b)

/-- The index of an alternative, in four bytes. -/
def writeIndex (index : Nat) : ByteString := ByteString.littleEndian 4 index

/-- One value out of a list, by its place. -/
def enumeration [DecidableEq α] (values : List α) : Codec α where
  write v := writeIndex (values.idxOf v)
  read := do
    let index ← Reader.quantity 4
    match values[index.val]? with
    | some v => return v
    | none => throw (.badVariant index.val values.length)

/-- A value of one of two types. -/
def either (a : Codec α) (b : Codec β) : Codec (α ⊕ β) where
  write
    | .inl v => writeIndex 0 ++ a.write v
    | .inr v => writeIndex 1 ++ b.write v
  read := do
    match (← Reader.quantity 4).val with
    | 0 => .inl <$> a.read
    | 1 => .inr <$> b.read
    | index => throw (.badVariant index 2)

/-- A count, in eight bytes. -/
def writeCount (count : Nat) : ByteString := ByteString.littleEndian 8 count

/-- Any number of values. -/
def list (c : Codec α) : Codec (List α) where
  write vs := writeCount vs.length ++ vs.flatMap c.write
  read := do
    let count ← Reader.quantity 8
    Reader.times c.read count.val

/-- A text, as its UTF-8 bytes. -/
def text : Codec String where
  write s := writeCount (Utf8.encode s).length ++ Utf8.encode s
  read := do
    let count ← Reader.quantity 8
    Reader.text count.val

/-- An account, as its name. -/
def account : Codec Account where
  write a := text.write a.name
  read := do
    let name ← text.read
    match Account.ofName? name with
    | some a => return a
    | none => throw (.badAccount name)

/-- A map. -/
def map [Ord κ] [Std.TransOrd κ] (key : Codec κ) (value : Codec α) :
    Codec (Std.ExtTreeMap κ α) :=
  (list (key.pair value)).imap (Std.ExtTreeMap.ofList ·) Std.ExtTreeMap.toList

/-- A set. -/
def set [Ord κ] [Std.TransOrd κ] (item : Codec κ) : Codec (Std.ExtTreeSet κ) :=
  (list item).imap (Std.ExtTreeSet.ofList ·) Std.ExtTreeSet.toList

end Codec
end Binary
end TokenGovernance
