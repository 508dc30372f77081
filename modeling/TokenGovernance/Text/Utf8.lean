/-
# UTF-8

A text is written as the bytes of its characters. Reading accepts exactly the sequences of

| first byte | second byte | later bytes | characters |
| --- | --- | --- | --- |
| `00`–`7F` | | | up to U+007F |
| `C2`–`DF` | `80`–`BF` | | up to U+07FF |
| `E0` | `A0`–`BF` | `80`–`BF` | up to U+0FFF |
| `E1`–`EC`, `EE`, `EF` | `80`–`BF` | `80`–`BF` | up to U+FFFF |
| `ED` | `80`–`9F` | `80`–`BF` | up to U+D7FF |
| `F0` | `90`–`BF` | `80`–`BF` twice | up to U+3FFFF |
| `F1`–`F3` | `80`–`BF` | `80`–`BF` twice | up to U+FFFFF |
| `F4` | `80`–`8F` | `80`–`BF` twice | up to U+10FFFF |

A refusal tells where the first sequence starts that is none of these, and how many of its bytes
could begin one; where the bytes end inside a sequence it is incomplete instead.
-/

namespace TokenGovernance
namespace Utf8

/-- Why bytes are not UTF-8. -/
inductive Fault where
  /-- The `length` bytes from `index` on begin no character. -/
  | invalid (length index : Nat)
  /-- The bytes from `index` on begin a character that does not end. -/
  | incomplete (index : Nat)
deriving DecidableEq

/-- What a refusal says. -/
def Fault.message : Fault → String
  | .invalid length index => s!"invalid utf-8 sequence of {length} bytes from index {index}"
  | .incomplete index => s!"incomplete utf-8 byte sequence from index {index}"

/-- The bytes of a text. -/
def encode (s : String) : List UInt8 := s.toList.flatMap String.utf8EncodeChar

/-- The length of the sequence that a first byte announces, and zero if it announces none. -/
def sequenceLength (first : UInt8) : Nat :=
  if first < 0x80 then 1
  else if first < 0xC2 then 0
  else if first < 0xE0 then 2
  else if first < 0xF0 then 3
  else if first < 0xF5 then 4
  else 0

/-- Whether a byte may stand in third or fourth place. -/
def isContinuation (b : UInt8) : Bool := 0x80 ≤ b && b < 0xC0

/-- Whether a byte may stand in second place after `first`. -/
def maySecond (first b : UInt8) : Bool :=
  if first = 0xE0 then 0xA0 ≤ b && b < 0xC0
  else if first = 0xED then 0x80 ≤ b && b < 0xA0
  else if first = 0xF0 then 0x90 ≤ b && b < 0xC0
  else if first = 0xF4 then 0x80 ≤ b && b < 0x90
  else isContinuation b

/-- The six bits that a continuation byte carries. -/
def payload (b : UInt8) : Nat := b.toNat % 0x40

/-- The character of a sequence of two bytes. -/
def character₂ (a b : UInt8) : Char := Char.ofNat (a.toNat % 0x20 * 0x40 + payload b)

/-- The character of a sequence of three bytes. -/
def character₃ (a b c : UInt8) : Char :=
  Char.ofNat ((a.toNat % 0x10 * 0x40 + payload b) * 0x40 + payload c)

/-- The character of a sequence of four bytes. -/
def character₄ (a b c d : UInt8) : Char :=
  Char.ofNat (((a.toNat % 0x08 * 0x40 + payload b) * 0x40 + payload c) * 0x40 + payload d)

/-- The characters of a row of bytes that starts at `index`. -/
def decodeFrom (index : Nat) : List UInt8 → Except Fault (List Char)
  | [] => .ok []
  | a :: rest =>
    if sequenceLength a = 1 then do
      return Char.ofNat a.toNat :: (← decodeFrom (index + 1) rest)
    else if sequenceLength a = 0 then .error (.invalid 1 index)
    else match rest with
      | [] => .error (.incomplete index)
      | b :: rest =>
        if !maySecond a b then .error (.invalid 1 index)
        else if sequenceLength a = 2 then do
          return character₂ a b :: (← decodeFrom (index + 2) rest)
        else match rest with
          | [] => .error (.incomplete index)
          | c :: rest =>
            if !isContinuation c then .error (.invalid 2 index)
            else if sequenceLength a = 3 then do
              return character₃ a b c :: (← decodeFrom (index + 3) rest)
            else match rest with
              | [] => .error (.incomplete index)
              | d :: rest =>
                if !isContinuation d then .error (.invalid 3 index)
                else do return character₄ a b c d :: (← decodeFrom (index + 4) rest)

/-- The text of a row of bytes. -/
def decode (bytes : List UInt8) : Except Fault String :=
  (decodeFrom 0 bytes).map String.ofList

end Utf8
end TokenGovernance
